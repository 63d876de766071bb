import LeaseLog.Proofs.State.Sequential

/-!
# Accepted sources

What the standard rules ask of a message, and what a source that they accept does to a state. Every
fact about an accepted source is proved message by message, with `apply_induction`.

Results:
1. `check_standard_iff`: the standard rules accept exactly the admissible messages.
2. `apply_induction`: what every admissible message keeps, an accepted source keeps.
3. `versionOf_lt_of_mem`, `le_versionOf_of_mem`, `versionOf_le`: versions only grow, and a source
   writes versions above the stored ones.
4. `leaseHolder_of_kept`, `leaseHolder_of_added`, `leaseHolder_origin`: who holds a lease that no
   message removes, and where a holder comes from.
-/

namespace LeaseLog

/-! ## Definitions -/

/-- What the standard rules ask of a message. -/
structure Admissible (view : StateView) (message : Message) : Prop where
  /-- It writes the version after the stored one. -/
  follows : message.state.version.toNat = (view.versionOf message.state.id).toNat + 1
  /-- No other entity holds a lease that it adds. -/
  free : ∀ lease ∈ message.addLeases, ∀ holder, view.leaseHolder lease = some holder →
    holder = message.state.id

/-- Some message writes a version that is stored already. -/
def Stale (state : LogState) (messages : List Message) : Prop :=
  ∃ message ∈ messages,
    message.state.version.toNat ≤ (state.versionOf message.state.id).toNat

/-- A property of the messages written so far and of the state they left is kept when one more
admissible message is written. -/
def KeptByWrites (source : Source) (messages : List Message)
    (P : List Message → LogState → Prop) : Prop :=
  ∀ past message current, message ∈ messages → P past current →
    Admissible current.view message → P (past ++ [message]) (current.write source message)

/-- No message removes a lease. -/
def Keeps (messages : List Message) (lease : Lease) : Prop :=
  ∀ message ∈ messages, lease ∉ message.removeLeases

/-! ## 1. The standard rules -/

namespace AcceptedLemmas

variable {view : StateView} {message : Message}

theorem next_eq_ok_iff {version next : Version} :
    version.next = .ok next ↔ next.toNat = version.toNat + 1 := by
  unfold Version.next
  constructor
  · intro h
    split at h
    · cases h
      rfl
    · cases h
  · intro h
    have hlt : version.toNat + 1 < Nat.pow 2 64 := h ▸ next.isLt
    cases next
    simp_all

theorem contiguousVersion_objection :
    Invariant.contiguousVersion.objection view message = none ↔
      message.state.version.toNat = (view.versionOf message.state.id).toNat + 1 := by
  rw [← next_eq_ok_iff]
  simp only [Invariant.contiguousVersion]
  split
  · next h => simp [h]
  · next expected h =>
    rw [h, Except.ok.injEq, eq_comm (a := expected)]
    split <;> simp_all

theorem heldElsewhere_eq_none {id : Ident} {leases : List Lease} :
    Invariant.heldElsewhere view id leases = none ↔
      ∀ lease ∈ leases, ∀ holder, view.leaseHolder lease = some holder → holder = id := by
  induction leases with
  | nil => simp [Invariant.heldElsewhere]
  | cons lease leases ih =>
    rw [Invariant.heldElsewhere, List.forall_mem_cons]
    split
    · next h => simp [h, ih]
    · next holder h =>
      split
      · next he => simp [h, he, ih]
      · next he => simp [h, he]

end AcceptedLemmas

open AcceptedLemmas

theorem check_standard_iff {view : StateView} {message : Message} :
    Invariant.check view message Invariant.standard = .ok () ↔ Admissible view message := by
  have unique : Invariant.uniqueLease.objection view message = none ↔
      Invariant.heldElsewhere view message.state.id message.addLeases = none := by
    simp [Invariant.uniqueLease]
  rw [heldElsewhere_eq_none] at unique
  simp only [Invariant.standard, Invariant.check]
  constructor
  · intro h
    split at h
    · cases h
    · next hv =>
      split at h
      · cases h
      · next hl => exact ⟨contiguousVersion_objection.mp hv, unique.mp hl⟩
  · rintro ⟨hv, hl⟩
    rw [contiguousVersion_objection.mpr hv, unique.mpr hl]

/-! ## 2. Induction over an accepted source -/

namespace AcceptedLemmas

theorem writeAll_induction {P : List Message → LogState → Prop} {source : Source}
    {messages : List Message} (hk : KeptByWrites source messages P) :
    ∀ {past : List Message} {state written : LogState}, P past state →
      LogState.writeAll Invariant.standard source state messages = .ok written →
      P (past ++ messages) written := by
  induction messages with
  | nil =>
    intro past state written h0 h
    cases h
    simpa using h0
  | cons message messages ih =>
    intro past state written h0 h
    rw [LogState.writeAll] at h
    split at h
    · cases h
    · next hc =>
      have h1 := hk past message state List.mem_cons_self h0 (check_standard_iff.mp hc)
      have h2 := ih (fun past other current hm => hk past other current
        (List.mem_cons_of_mem _ hm)) h1 h
      simpa using h2

end AcceptedLemmas

/-- A property of the messages written so far and of the state they left holds at the end of an
accepted source, if it holds at its start and every admissible message keeps it. The end of the
source is the state that its messages wrote, with the source noted. -/
theorem apply_induction {P : List Message → LogState → Prop} {state final : LogState}
    {source : Source} (h : state.apply source Invariant.standard = .ok final) (h0 : P [] state)
    (hk : KeptByWrites source source.messages P) :
    ∃ written, P source.messages written ∧
      final = { written with sources := state.sources ++ [source] } := by
  rw [apply_eq_writeAll] at h
  cases hw : LogState.writeAll Invariant.standard source state source.messages with
  | error violation => rw [hw] at h; cases h
  | ok written =>
    rw [hw] at h
    cases h
    exact ⟨written, by simpa using writeAll_induction hk h0 hw, rfl⟩

/-! ## 3. Versions -/

section

variable {state final : LogState} {source : Source} {message : Message} {id : Ident}

theorem sources_of_apply (h : state.apply source Invariant.standard = .ok final) :
    final.sources = state.sources ++ [source] := by
  obtain ⟨written, -, rfl⟩ := apply_induction (P := fun _ _ => True) h trivial
    (fun _ _ _ _ _ _ => trivial)
  rfl

/-- The messages of an entity in an accepted source write the versions that follow the stored
one. -/
theorem versions_of_apply (h : state.apply source Invariant.standard = .ok final) (id : Ident) :
    (source.messages.filter (·.state.id = id)).map (·.state.version.toNat) =
        List.range' ((state.versionOf id).toNat + 1)
          (source.messages.filter (·.state.id = id)).length ∧
      (final.versionOf id).toNat =
        (state.versionOf id).toNat + (source.messages.filter (·.state.id = id)).length := by
  let P (past : List Message) (current : LogState) : Prop :=
    (past.filter (·.state.id = id)).map (·.state.version.toNat) =
        List.range' ((state.versionOf id).toNat + 1) (past.filter (·.state.id = id)).length ∧
      (current.versionOf id).toNat =
        (state.versionOf id).toNat + (past.filter (·.state.id = id)).length
  have hk : KeptByWrites source source.messages P := by
    rintro past message current - ⟨hd, hv⟩ ha
    have hf : message.state.version.toNat = (current.versionOf message.state.id).toNat + 1 :=
      ha.follows
    -- a message of the entity writes the next version, and every other one leaves it alone
    by_cases he : message.state.id = id
    · subst he
      simp only [P, List.filter_append, List.map_append, List.length_append, hd,
        LogState.versionOf_write, if_true, List.filter_cons, decide_true, List.filter_nil,
        List.map_cons, List.map_nil, List.length_singleton, List.range'_1_concat]
      rw [hf, hv]
      exact ⟨by rw [Nat.add_right_comm], rfl⟩
    · simp [P, List.filter_append, he, Ne.symm he, hd, hv, LogState.versionOf_write]
  obtain ⟨written, hp, rfl⟩ := apply_induction h ⟨rfl, rfl⟩ hk
  exact hp

theorem versionOf_le (h : state.apply source Invariant.standard = .ok final) :
    (state.versionOf id).toNat ≤ (final.versionOf id).toNat := by
  rw [(versions_of_apply h id).2]
  exact Nat.le_add_right _ _

theorem version_mem_range (h : state.apply source Invariant.standard = .ok final)
    (hm : message ∈ source.messages) :
    message.state.version.toNat ∈ List.range' ((state.versionOf message.state.id).toNat + 1)
      (source.messages.filter (·.state.id = message.state.id)).length := by
  rw [← (versions_of_apply h message.state.id).1]
  exact List.mem_map_of_mem (List.mem_filter.mpr ⟨hm, by simp⟩)

theorem versionOf_lt_of_mem (h : state.apply source Invariant.standard = .ok final)
    (hm : message ∈ source.messages) :
    (state.versionOf message.state.id).toNat < message.state.version.toNat := by
  have hr := List.mem_range'_1.mp (version_mem_range h hm)
  omega

theorem le_versionOf_of_mem (h : state.apply source Invariant.standard = .ok final)
    (hm : message ∈ source.messages) :
    message.state.version.toNat ≤ (final.versionOf message.state.id).toNat := by
  have hr := List.mem_range'_1.mp (version_mem_range h hm)
  have hv := (versions_of_apply h message.state.id).2
  omega

/-- A source with a stale message is never accepted. -/
theorem not_stale_of_apply (h : state.apply source Invariant.standard = .ok final) :
    ¬ Stale state source.messages := by
  rintro ⟨message, hm, hle⟩
  exact absurd (versionOf_lt_of_mem h hm) (Nat.not_lt.mpr hle)

/-- Versions only grow, so what is stale stays stale. -/
theorem Stale.mono {messages : List Message} (hs : Stale state messages)
    (h : state.apply source Invariant.standard = .ok final) : Stale final messages := by
  obtain ⟨message, hm, hle⟩ := hs
  exact ⟨message, hm, Nat.le_trans hle (versionOf_le h)⟩

end

/-! ## 4. Leases -/

section

variable {state final : LogState} {source : Source} {lease : Lease} {id : Ident}

/-- A holder of a lease after an accepted source held it before, or the source has a message by
which the holder takes it. -/
theorem leaseHolder_origin (h : state.apply source Invariant.standard = .ok final)
    (hl : final.leaseHolder lease = some id) :
    state.leaseHolder lease = some id ∨
      ∃ message ∈ source.messages, message.state.id = id ∧ lease ∈ message.addLeases := by
  let P (past : List Message) (current : LogState) : Prop :=
    current.leaseHolder lease = some id → state.leaseHolder lease = some id ∨
      ∃ message ∈ past, message.state.id = id ∧ lease ∈ message.addLeases
  have hk : KeptByWrites source source.messages P := by
    intro past message current _ hp _ hw
    rw [LogState.leaseHolder_write] at hw
    split at hw
    · next ha => exact .inr ⟨message, by simp, Option.some.inj hw, ha⟩
    · split at hw
      · cases hw
      · rcases hp hw with hb | ⟨other, ho, hr⟩
        · exact .inl hb
        · exact .inr ⟨other, List.mem_append_left _ ho, hr⟩
  obtain ⟨written, hp, rfl⟩ := apply_induction h Or.inl hk
  exact hp hl

/-- A lease that no message removes keeps its holder, and nobody else takes it. -/
theorem leaseHolder_of_kept (h : state.apply source Invariant.standard = .ok final)
    (hk : Keeps source.messages lease) (hl : state.leaseHolder lease = some id) :
    final.leaseHolder lease = some id ∧
      ∀ message ∈ source.messages, lease ∈ message.addLeases → message.state.id = id := by
  let P (past : List Message) (current : LogState) : Prop :=
    current.leaseHolder lease = some id ∧
      ∀ message ∈ past, lease ∈ message.addLeases → message.state.id = id
  have hw : KeptByWrites source source.messages P := by
    rintro past message current hm ⟨hh, hd⟩ ha
    have hid : lease ∈ message.addLeases → message.state.id = id := fun hadd =>
      (ha.free lease hadd id hh).symm
    refine ⟨?_, ?_⟩
    -- the message takes the lease again, or it does not touch it
    · rw [LogState.leaseHolder_write]
      split
      · next hadd => rw [hid hadd]
      · rw [if_neg fun hr => hk message hm hr.1]
        exact hh
    · intro other ho
      rcases List.mem_append.mp ho with ho | ho
      · exact hd other ho
      · cases List.mem_singleton.mp ho
        exact hid
  obtain ⟨written, hp, rfl⟩ := apply_induction h ⟨hl, by simp⟩ hw
  exact hp

/-- Whoever takes a lease that no message removes holds it after the source. -/
theorem leaseHolder_of_added (h : state.apply source Invariant.standard = .ok final)
    (hk : Keeps source.messages lease) {message : Message} (hm : message ∈ source.messages)
    (hl : lease ∈ message.addLeases) : final.leaseHolder lease = some message.state.id := by
  let P (past : List Message) (current : LogState) : Prop :=
    ∀ message ∈ past, lease ∈ message.addLeases →
      current.leaseHolder lease = some message.state.id
  have hw : KeptByWrites source source.messages P := by
    intro past message current hm hp ha other ho hadd
    rw [LogState.leaseHolder_write]
    rcases List.mem_append.mp ho with ho | ho
    · have hh := hp other ho hadd
      split
      · next hl => rw [ha.free lease hl _ hh]
      · rw [if_neg fun hr => hk message hm hr.1]
        exact hh
    · cases List.mem_singleton.mp ho
      rw [if_pos hadd]
  obtain ⟨written, hp, rfl⟩ := apply_induction h (by simp [P]) hw
  exact hp message hm hl

end

end LeaseLog
