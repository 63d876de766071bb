import LeaseLog.Proofs.State.Sequential
import LeaseLog.Storage.Session

/-!
# Independent sources

Two sources are independent if they write different entities and mention different leases. What a
source reads is what it writes, the entities of its messages and the leases that they mention, so
independent sources may be committed in either order.

Results:
1. `writeAll_congr`: the verdict on messages, and what they make of the entities and leases that
   they touch, depend on those entities and leases alone.
2. `writeAll_frame`: everything else stays as it is.
3. `independent_sources_commute`: independent sources are accepted or refused whichever of them
   comes first, and both orders lead to the same entities and leases.
-/

namespace LeaseLog

/-! ## Definitions -/

/-- The leases that a message takes or releases. -/
def Message.mentioned (message : Message) : List Lease := message.addLeases ++ message.removeLeases

/-- Two sources write different entities and mention different leases. -/
structure Source.Independent (a b : Source) : Prop where
  entities : ∀ message ∈ a.messages, ∀ other ∈ b.messages, message.state.id ≠ other.state.id
  leases : ∀ message ∈ a.messages, ∀ other ∈ b.messages, ∀ lease ∈ message.mentioned,
    lease ∉ other.mentioned

/-- Two states have the same entities and holders, as far as messages touch them. -/
structure LogState.AgreeOn (messages : List Message) (left right : LogState) : Prop where
  entities : ∀ message ∈ messages,
    left.entity? message.state.id = right.entity? message.state.id
  holders : ∀ message ∈ messages, ∀ lease ∈ message.mentioned,
    left.leaseHolder lease = right.leaseHolder lease

/-- Two states have the same entities and holders, except for what messages touch. -/
structure LogState.AgreeOff (messages : List Message) (left right : LogState) : Prop where
  entities : ∀ id, (∀ message ∈ messages, message.state.id ≠ id) →
    left.entity? id = right.entity? id
  holders : ∀ lease, (∀ message ∈ messages, lease ∉ message.mentioned) →
    left.leaseHolder lease = right.leaseHolder lease

theorem Source.Independent.symm {a b : Source} (h : a.Independent b) : b.Independent a :=
  ⟨fun message hm other ho => (h.entities other ho message hm).symm,
    fun message hm other ho lease hl hother => h.leases other ho message hm lease hother hl⟩

/-! ## 1. What messages read -/

namespace IndependenceLemmas

variable {left right state : LogState} {source : Source} {message : Message}
  {messages rest : List Message}

theorem versionOf_congr {id : Ident} (h : left.entity? id = right.entity? id) :
    left.versionOf id = right.versionOf id := by
  rw [LogState.versionOf, LogState.versionOf, h]

theorem heldElsewhere_congr {id : Ident} {leases : List Lease}
    (h : ∀ lease ∈ leases, left.leaseHolder lease = right.leaseHolder lease) :
    Invariant.heldElsewhere left.view id leases = Invariant.heldElsewhere right.view id leases := by
  induction leases with
  | nil => rfl
  | cons lease leases ih =>
    have hlease : left.view.leaseHolder lease = right.view.leaseHolder lease :=
      h lease List.mem_cons_self
    rw [Invariant.heldElsewhere, Invariant.heldElsewhere, hlease,
      ih fun other ho => h other (List.mem_cons_of_mem _ ho)]

theorem check_congr (h : left.AgreeOn messages right) (hm : message ∈ messages) :
    Invariant.check left.view message Invariant.standard =
      Invariant.check right.view message Invariant.standard := by
  have hversion : left.view.versionOf message.state.id = right.view.versionOf message.state.id :=
    versionOf_congr (h.entities message hm)
  have hcontiguous : Invariant.contiguousVersion.objection left.view message =
      Invariant.contiguousVersion.objection right.view message := by
    simp only [Invariant.contiguousVersion, hversion]
  have hunique : Invariant.uniqueLease.objection left.view message =
      Invariant.uniqueLease.objection right.view message := by
    simp only [Invariant.uniqueLease]
    rw [heldElsewhere_congr fun lease hl =>
      h.holders message hm lease (List.mem_append_left _ hl)]
  simp only [Invariant.standard, Invariant.check, hcontiguous, hunique]

theorem heldAmong_congr {id : Ident} {leases : List Lease}
    (h : ∀ lease ∈ leases, left.leaseHolder lease = right.leaseHolder lease) :
    left.heldAmong id leases = right.heldAmong id leases := by
  unfold LogState.heldAmong
  exact List.filter_congr fun lease hl => by rw [h lease hl]

/-- Writing one of the messages keeps the agreement on what all of them touch. -/
theorem agreeOn_write (h : left.AgreeOn messages right) (hm : message ∈ messages) :
    (left.write source message).AgreeOn messages (right.write source message) where
  entities other ho := by
    by_cases he : other.state.id = message.state.id
    · rw [he, LogState.entity?_write_self, LogState.entity?_write_self, h.entities message hm,
        heldAmong_congr fun lease hl => h.holders message hm lease (List.mem_append_right _ hl)]
    · rw [LogState.entity?_write_of_ne he, LogState.entity?_write_of_ne he, h.entities other ho]
  holders other ho lease hl := by
    rw [LogState.leaseHolder_write, LogState.leaseHolder_write, h.holders other ho lease hl]

end IndependenceLemmas

open IndependenceLemmas

/-- Two states that agree on what messages touch refuse them for the same reason, or accept them and
agree afterwards. -/
theorem writeAll_congr (source : Source) {messages rest : List Message}
    (hsub : ∀ message ∈ rest, message ∈ messages) {left right : LogState}
    (h : left.AgreeOn messages right) :
    (∃ violation,
      LogState.writeAll Invariant.standard source left rest = .error violation ∧
      LogState.writeAll Invariant.standard source right rest = .error violation) ∨
    (∃ left' right',
      LogState.writeAll Invariant.standard source left rest = .ok left' ∧
      LogState.writeAll Invariant.standard source right rest = .ok right' ∧
      left'.AgreeOn messages right') := by
  induction rest generalizing left right with
  | nil => exact .inr ⟨left, right, rfl, rfl, h⟩
  | cons message rest ih =>
    have hm : message ∈ messages := hsub message List.mem_cons_self
    simp only [LogState.writeAll, check_congr h hm]
    cases Invariant.check right.view message Invariant.standard with
    | error violation => exact .inl ⟨violation, rfl, rfl⟩
    | ok _ =>
      exact ih (fun other ho => hsub other (List.mem_cons_of_mem _ ho)) (agreeOn_write h hm)

/-! ## 2. What messages leave alone -/

theorem writeAll_frame {invariants : List Invariant} {source : Source} {messages : List Message}
    {state written : LogState}
    (h : LogState.writeAll invariants source state messages = .ok written) :
    written.AgreeOff messages state := by
  induction messages generalizing state with
  | nil =>
    cases h
    exact ⟨fun _ _ => rfl, fun _ _ => rfl⟩
  | cons message messages ih =>
    rw [LogState.writeAll] at h
    split at h
    · cases h
    · obtain ⟨hentities, hholders⟩ := ih h
      refine ⟨fun id hid => ?_, fun lease hlease => ?_⟩
      · obtain ⟨hne, hrest⟩ := List.forall_mem_cons.mp hid
        rw [hentities id hrest, LogState.entity?_write_of_ne hne.symm]
      · obtain ⟨hn, hrest⟩ := List.forall_mem_cons.mp hlease
        rw [hholders lease hrest, LogState.leaseHolder_write,
          if_neg fun ha => hn (List.mem_append_left _ ha),
          if_neg fun hr => hn (List.mem_append_right _ hr.1)]

namespace IndependenceLemmas

variable {left right state : LogState} {source a b : Source}

theorem tryApply_congr (h : left.AgreeOn source.messages right) :
    (left.tryApply source Invariant.standard).1 = (right.tryApply source Invariant.standard).1 ∧
      (left.tryApply source Invariant.standard).2.AgreeOn source.messages
        (right.tryApply source Invariant.standard).2 := by
  simp only [LogState.tryApply, apply_eq_writeAll]
  rcases writeAll_congr source (fun _ hm => hm) h with
    ⟨violation, hl, hr⟩ | ⟨left', right', hl, hr, ha⟩
  · rw [hl, hr]
    exact ⟨rfl, h⟩
  · rw [hl, hr]
    exact ⟨rfl, ha.entities, ha.holders⟩

theorem tryApply_frame (state : LogState) (source : Source) :
    (state.tryApply source Invariant.standard).2.AgreeOff source.messages state := by
  simp only [LogState.tryApply, apply_eq_writeAll]
  cases hw : LogState.writeAll Invariant.standard source state source.messages with
  | error violation => exact ⟨fun _ _ => rfl, fun _ _ => rfl⟩
  | ok written =>
    have hf := writeAll_frame hw
    exact ⟨hf.entities, hf.holders⟩

theorem agreeOn_of_agreeOff (hi : a.Independent b) (h : left.AgreeOff b.messages right) :
    left.AgreeOn a.messages right where
  entities message hm := h.entities _ fun other ho => (hi.entities message hm other ho).symm
  holders message hm lease hl := h.holders _ fun other ho => hi.leases message hm other ho lease hl

/-- Trying one of two independent sources first makes no difference to the other one. -/
theorem tryApply_after (hi : a.Independent b) (state : LogState) :
    ((state.tryApply b Invariant.standard).2.tryApply a Invariant.standard).1 =
        (state.tryApply a Invariant.standard).1 ∧
      ((state.tryApply b Invariant.standard).2.tryApply a Invariant.standard).2.AgreeOn a.messages
        (state.tryApply a Invariant.standard).2 :=
  tryApply_congr (agreeOn_of_agreeOff hi (tryApply_frame state b))

/-- What one of two independent sources may touch but not both is the same after both orders. -/
theorem read_swap {α : Type} {read : LogState → α} {onA onB : Prop} (hi : a.Independent b)
    (state : LogState) (hne : onA → ¬onB)
    (ha : onA → ∀ {left right}, left.AgreeOn a.messages right → read left = read right)
    (hb : onB → ∀ {left right}, left.AgreeOn b.messages right → read left = read right)
    (hna : ¬onA → ∀ {left right}, left.AgreeOff a.messages right → read left = read right)
    (hnb : ¬onB → ∀ {left right}, left.AgreeOff b.messages right → read left = read right) :
    read ((state.tryApply a Invariant.standard).2.tryApply b Invariant.standard).2 =
      read ((state.tryApply b Invariant.standard).2.tryApply a Invariant.standard).2 := by
  by_cases hA : onA
  · rw [ha hA (tryApply_after hi state).2, hnb (hne hA) (tryApply_frame _ b)]
  · by_cases hB : onB
    · rw [hb hB (tryApply_after hi.symm state).2, hna hA (tryApply_frame _ a)]
    · -- neither source touches it, so it is what it was
      rw [hnb hB (tryApply_frame _ b), hna hA (tryApply_frame state a), hna hA (tryApply_frame _ a),
        hnb hB (tryApply_frame state b)]

theorem entity?_swap (hi : a.Independent b) (state : LogState) (id : Ident) :
    ((state.tryApply a Invariant.standard).2.tryApply b Invariant.standard).2.entity? id =
      ((state.tryApply b Invariant.standard).2.tryApply a Invariant.standard).2.entity? id := by
  have hon : ∀ {messages : List Message}, (∃ message ∈ messages, message.state.id = id) →
      ∀ {left right : LogState}, left.AgreeOn messages right →
        left.entity? id = right.entity? id := by
    rintro messages ⟨message, hm, rfl⟩ left right h
    exact h.entities message hm
  have hoff : ∀ {messages : List Message}, ¬(∃ message ∈ messages, message.state.id = id) →
      ∀ {left right : LogState}, left.AgreeOff messages right →
        left.entity? id = right.entity? id :=
    fun hn _ _ h => h.entities id fun message hm he => hn ⟨message, hm, he⟩
  refine read_swap hi state ?_ hon hon hoff hoff
  rintro ⟨message, hm, rfl⟩ ⟨other, ho, he⟩
  exact hi.entities message hm other ho he.symm

theorem leaseHolder_swap (hi : a.Independent b) (state : LogState) (lease : Lease) :
    ((state.tryApply a Invariant.standard).2.tryApply b Invariant.standard).2.leaseHolder lease =
      ((state.tryApply b Invariant.standard).2.tryApply a Invariant.standard).2.leaseHolder
        lease := by
  have hon : ∀ {messages : List Message}, (∃ message ∈ messages, lease ∈ message.mentioned) →
      ∀ {left right : LogState}, left.AgreeOn messages right →
        left.leaseHolder lease = right.leaseHolder lease := by
    rintro messages ⟨message, hm, hl⟩ left right h
    exact h.holders message hm lease hl
  have hoff : ∀ {messages : List Message}, ¬(∃ message ∈ messages, lease ∈ message.mentioned) →
      ∀ {left right : LogState}, left.AgreeOff messages right →
        left.leaseHolder lease = right.leaseHolder lease :=
    fun hn _ _ h => h.holders lease fun message hm hl => hn ⟨message, hm, hl⟩
  refine read_swap hi state ?_ hon hon hoff hoff
  rintro ⟨message, hm, hl⟩ ⟨other, ho, hother⟩
  exact hi.leases message hm other ho lease hl hother

theorem tryApply_eq_ok {final : LogState} :
    state.tryApply source Invariant.standard = (.ok (), final) ↔
      state.apply source Invariant.standard = .ok final := by
  unfold LogState.tryApply
  cases state.apply source Invariant.standard <;> simp

/-- Both sources are accepted one after the other. -/
theorem applyAll_pair {final : LogState} :
    LogState.applyAll Invariant.standard state [a, b] = .ok final ↔
      (state.tryApply a Invariant.standard).1 = .ok () ∧
      ((state.tryApply a Invariant.standard).2.tryApply b Invariant.standard) =
        (.ok (), final) := by
  rw [tryApply_eq_ok]
  simp only [LogState.applyAll, LogState.tryApply]
  cases ha : state.apply a Invariant.standard with
  | error violation => simp
  | ok reached =>
    dsimp only
    cases hb : reached.apply b Invariant.standard with
    | error violation => simp
    | ok both => simp

end IndependenceLemmas

/-! ## 3. The result -/

/-- Whether a source is accepted, and why it is refused if it is not, does not depend on whether an
independent source was tried before. So two independent sources are both accepted in one order if
and only if they are in the other one, and then both orders lead to the same entities and the same
holders and listing of leases. -/
theorem independent_sources_commute {a b : Source} (h : a.Independent b) (state : LogState) :
    (((state.tryApply b Invariant.standard).2.tryApply a Invariant.standard).1 =
        (state.tryApply a Invariant.standard).1 ∧
      ((state.tryApply a Invariant.standard).2.tryApply b Invariant.standard).1 =
        (state.tryApply b Invariant.standard).1) ∧
    ((∃ final, LogState.applyAll Invariant.standard state [a, b] = .ok final) ↔
      ∃ final, LogState.applyAll Invariant.standard state [b, a] = .ok final) ∧
    ∀ ab ba, LogState.applyAll Invariant.standard state [a, b] = .ok ab →
      LogState.applyAll Invariant.standard state [b, a] = .ok ba →
      (∀ id, ab.entity? id = ba.entity? id) ∧
      (∀ lease, ab.leaseHolder lease = ba.leaseHolder lease) ∧
      ab.leaseList = ba.leaseList := by
  have hfirst := (tryApply_after h state).1
  have hsecond := (tryApply_after h.symm state).1
  refine ⟨⟨hfirst, hsecond⟩, ?_, ?_⟩
  · constructor
    · rintro ⟨final, hab⟩
      obtain ⟨ha, hb⟩ := applyAll_pair.mp hab
      rw [hb] at hsecond
      exact ⟨_, applyAll_pair.mpr ⟨hsecond.symm, Prod.ext (hfirst.trans ha) rfl⟩⟩
    · rintro ⟨final, hba⟩
      obtain ⟨hb, ha⟩ := applyAll_pair.mp hba
      rw [ha] at hfirst
      exact ⟨_, applyAll_pair.mpr ⟨hfirst.symm, Prod.ext (hsecond.trans hb) rfl⟩⟩
  · intro ab ba hab hba
    have hentities : ∀ id, ab.entity? id = ba.entity? id := by
      intro id
      simpa [(applyAll_pair.mp hab).2, (applyAll_pair.mp hba).2] using entity?_swap h state id
    have hholders : ∀ lease, ab.leaseHolder lease = ba.leaseHolder lease := by
      intro lease
      simpa [(applyAll_pair.mp hab).2, (applyAll_pair.mp hba).2] using
        leaseHolder_swap h state lease
    have hindex : ab.leases = ba.leases := Std.ExtTreeMap.ext_getElem? hholders
    refine ⟨hentities, hholders, ?_⟩
    rw [LogState.leaseList, LogState.leaseList, hindex]

/-- One entity holds a lease. -/
def exHeld : LogState :=
  (LogState.empty.commit ⟨.ofNat 7, default, default,
    [(Message.plain ⟨.ofNat 1, (Version.ofNat? 1).getD .zero⟩ default).takeLease
      ⟨"room", "name", "blue"⟩]⟩).2

/-- The entity releases its lease to a new one. -/
def exHandOver : Source :=
  ⟨.ofNat 8, default, default,
    [(Message.plain ⟨.ofNat 1, (Version.ofNat? 2).getD .zero⟩ default).releaseLease
        ⟨"room", "name", "blue"⟩,
      (Message.plain ⟨.ofNat 2, (Version.ofNat? 1).getD .zero⟩ default).takeLease
        ⟨"room", "name", "blue"⟩]⟩

/-- A third entity takes another lease. -/
def exNewcomer : Source :=
  ⟨.ofNat 9, default, default,
    [(Message.plain ⟨.ofNat 3, (Version.ofNat? 1).getD .zero⟩ default).takeLease
      ⟨"room", "name", "red"⟩]⟩

/-- Both orders are accepted. They create the new entities in different orders, and list the same
leases. -/
theorem independent_sources_commute_hand_over :
    exHandOver.Independent exNewcomer ∧
    ∃ ab ba, LogState.applyAll Invariant.standard exHeld [exHandOver, exNewcomer] = .ok ab ∧
      LogState.applyAll Invariant.standard exHeld [exNewcomer, exHandOver] = .ok ba ∧
      ab.created = [.ofNat 1, .ofNat 2, .ofNat 3] ∧ ba.created = [.ofNat 1, .ofNat 3, .ofNat 2] ∧
      ab.leaseList = ba.leaseList := by
  have hi : exHandOver.Independent exNewcomer := ⟨by decide, by decide⟩
  obtain ⟨-, -, hsame⟩ := independent_sources_commute hi exHeld
  have hab : ∃ ab, LogState.applyAll Invariant.standard exHeld [exHandOver, exNewcomer] = .ok ab ∧
      ab.created = [.ofNat 1, .ofNat 2, .ofNat 3] := ⟨_, rfl, by decide⟩
  obtain ⟨ab, hab, hcreated⟩ := hab
  have hba : ∃ ba, LogState.applyAll Invariant.standard exHeld [exNewcomer, exHandOver] = .ok ba ∧
      ba.created = [.ofNat 1, .ofNat 3, .ofNat 2] := ⟨_, rfl, by decide⟩
  obtain ⟨ba, hba, hother⟩ := hba
  exact ⟨hi, ab, ba, hab, hba, hcreated, hother, (hsame ab ba hab hba).2.2⟩

end LeaseLog
