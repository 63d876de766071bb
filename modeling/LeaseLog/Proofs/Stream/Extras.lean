import LeaseLog.Proofs.State.LeaseIndex
import LeaseLog.Proofs.Stream.Basic
import LeaseLog.Stream.UnitOfWork

/-!
# Extras of a message

The extras of a message take and release leases and attach and drop tags, in lists that may repeat
and overlap as they like. They may even release the lease of the stream itself. Since a message
takes leases after it has released them, nothing of this detaches it from its stream.

Results:
1. `holds_write_iff`, `carries_write_iff`: what the entity of an admissible message holds and
   carries once it is written.
2. `coherent_settled`: the changes that the messages of a source left keep the index in agreement.
3. `extras_stay_attached`: after a staged message the stream's entity holds the leases of the
   stream, of the message key and of the extras, and other entities are as they were.
-/

namespace LeaseLog

/-! ## Definitions -/

namespace LogState

/-- An entity has a lease in its set. -/
def Holds (state : LogState) (id : Ident) (lease : Lease) : Prop :=
  ∃ entity, state.entity? id = some entity ∧ lease ∈ entity.leases

/-- An entity has a tag. -/
def Carries (state : LogState) (id : Ident) (tag : Tag) : Prop :=
  ∃ entity, state.entity? id = some entity ∧ tag ∈ entity.tags

end LogState

/-- What a message of a stream makes of a state. -/
structure Attached (stream : Stream) (keyLease : Option Lease) (extras : Extras)
    (before after : LogState) : Prop where
  /-- The entity of the stream keeps its leases except those that are released. Those of the
  stream, of the message key and of the extras it holds, released or not. -/
  leases : ∀ lease, after.Holds stream.id lease ↔
    lease = streamLease stream.key ∨ keyLease = some lease ∨ lease ∈ extras.addLeases ∨
      (lease ∉ extras.removeLeases ∧ before.Holds stream.id lease)
  /-- Likewise for its tags. -/
  tags : ∀ tag, after.Carries stream.id tag ↔
    tag ∈ extras.addTags ∨ (tag ∉ extras.removeTags ∧ before.Carries stream.id tag)
  /-- No other entity changes. -/
  others : ∀ id, id ≠ stream.id → after.entity? id = before.entity? id
  /-- The index says the same. -/
  index : ∀ lease id, after.leaseHolder lease = some id ↔ after.Holds id lease

/-! ## 1. What is held and carried after a message -/

section

variable {state : LogState} {source : Source} {message : Message}

theorem holds_write_iff (hc : state.Coherent) (ha : Admissible state.view message) (lease : Lease) :
    (state.write source message).Holds message.state.id lease ↔
      lease ∈ message.addLeases ∨
        (lease ∉ message.removeLeases ∧ state.Holds message.state.id lease) := by
  have hbefore : state.Holds message.state.id lease ↔
      state.leaseHolder lease = some message.state.id := (hc.index lease message.state.id).symm
  have hafter : (state.write source message).Holds message.state.id lease ↔
      (state.write source message).leaseHolder lease = some message.state.id :=
    ((hc.write source ha).index lease message.state.id).symm
  rw [hafter, hbefore, LogState.leaseHolder_write]
  by_cases hadd : lease ∈ message.addLeases
  · simp [hadd]
  · by_cases hremove : lease ∈ message.removeLeases <;> simp [hadd, hremove]

theorem carries_write_iff (tag : Tag) :
    (state.write source message).Carries message.state.id tag ↔
      tag ∈ message.addTags ∨
        (tag ∉ message.removeTags ∧ state.Carries message.state.id tag) := by
  simp only [LogState.Carries, LogState.entity?_write_self, Option.some.injEq, exists_eq_left',
    OrdSet.mem_foldl_add, OrdSet.mem_foldl_remove]
  cases state.entity? message.state.id with
  | none => simp [Entity.unwritten]
  | some entity => simp

end

/-! ## 2. Changes of the messages before -/

/-- What accepted messages of a source make of a reachable state is coherent. -/
theorem coherent_settled {base : LogState} (hb : base.Reachable) {source : Source}
    {messages : List Message} {overlay : Overlay}
    (ho : Overlay.applyAll base Invariant.standard source .empty messages = .ok overlay) :
    (overlay.settled base).Coherent := by
  have hw : LogState.writeAll Invariant.standard source base messages =
      .ok (overlay.settled base) := by
    have h := applyAll_settled base Invariant.standard source .empty messages
    rw [OverlayLemmas.settled_empty, ho] at h
    exact h.symm
  let P : List Message → LogState → Prop := fun _ current => current.Coherent
  have hk : KeptByWrites source messages P := fun _ _ _ _ hp ha => hp.write source ha
  have h0 : P [] base := coherent_of_reachable hb
  exact @AcceptedLemmas.writeAll_induction P source messages hk [] base _ h0 hw

namespace ExtrasLemmas

/-- One more message after those that were accepted. -/
theorem applyAll_concat {base : LogState} {invariants : List Invariant} {source : Source}
    {earlier : List Message} {message : Message} {start overlay : Overlay}
    (ho : Overlay.applyAll base invariants source start earlier = .ok overlay)
    (hm : Invariant.check (overlay.view base) message invariants = .ok ()) :
    Overlay.applyAll base invariants source start (earlier ++ [message]) =
      .ok (overlay.apply base source message) := by
  induction earlier generalizing start with
  | nil =>
    cases ho
    simp only [List.nil_append, Overlay.applyAll, hm]
  | cons first earlier ih =>
    rw [Overlay.applyAll] at ho
    rw [List.cons_append, Overlay.applyAll]
    split at ho
    · cases ho
    · exact ih ho

end ExtrasLemmas

/-! ## 3. Messages of streams -/

/-- Writing an admissible message of a stream. -/
theorem attached_write {state : LogState} (hc : state.Coherent) (source : Source) {stream : Stream}
    {version : Version} {delta : Envelope} {keyLease : Option Lease} {extras : Extras}
    {message : Message}
    (hm : message = .ofStream stream.key ⟨stream.id, version⟩ delta keyLease extras)
    (ha : Admissible state.view message) :
    Attached stream keyLease extras state (state.write source message) := by
  have hid : message.state.id = stream.id := by rw [hm, state_ofStream]
  refine ⟨fun lease => ?_, fun tag => ?_, fun id hne => ?_, (hc.write source ha).index⟩
  · rw [← hid, holds_write_iff hc ha, hm, mem_addLeases_ofStream, mem_removeLeases_ofStream,
      or_assoc, or_assoc]
  · rw [← hid, carries_write_iff, hm, mem_addTags_ofStream, mem_removeTags_ofStream]
  · exact LogState.entity?_write_of_ne (hid ▸ hne)

/-- Staging gathers one message, whatever the extras are. Let the messages of a source that came
before it be accepted by a reachable log, and let this one pass the standard rules then. Once it is
applied, the entity of the stream holds the lease of the stream, that of the message key if there is
one, and every extra lease. Of its other leases it holds those that the extras do not release, its
tags are the old ones without the dropped and with the attached ones, and all other entities and
their leases are as they were. If no message follows, that is the log after the source. -/
theorem extras_stay_attached {base : LogState} (hb : base.Reachable) {source : Source}
    {earlier : List Message} {overlay : Overlay}
    (ho : Overlay.applyAll base Invariant.standard source .empty earlier = .ok overlay)
    {unit unit' : UnitOfWork} {handle : Nat} {stream : Stream} {delta : Envelope}
    {keyLease : Option Lease} {extras : Extras} {pointer : Pointer}
    (hs : unit.stage handle stream delta keyLease extras = (.ok pointer, unit')) :
    ∃ message, unit'.staged = unit.staged ++ [message] ∧
      (Invariant.check (overlay.view base) message Invariant.standard = .ok () →
        let before := overlay.settled base
        let after := (overlay.apply base source message).settled base
        Attached stream keyLease extras before after ∧
          (source.messages = earlier ++ [message] →
            base.apply source Invariant.standard =
              .ok { after with sources := base.sources ++ [source] })) := by
  unfold UnitOfWork.stage at hs
  split at hs
  · cases hs
  · next version _ =>
    cases hs
    refine ⟨_, rfl, fun hm => ?_⟩
    intro before after
    have ha := check_standard_iff.mp hm
    rw [← OverlayLemmas.view_settled] at ha
    refine ⟨?_, fun hmessages => ?_⟩
    · show Attached stream keyLease extras before after
      rw [show after = before.write source _ from settled_apply base source overlay _]
      exact attached_write (coherent_settled hb ho) source rfl ha
    · rw [LogState.apply, hmessages, ExtrasLemmas.applyAll_concat ho hm]
      rfl

/-- Leases and a tag for the example. -/
def exRoom : Lease := ⟨"room", "name", "blue"⟩

def exChair : Lease := ⟨"chair", "number", "1"⟩

def exRed : Tag := ⟨"colour", "red"⟩

/-- A stream whose entity also holds a room and has a tag, and an entity that holds a chair. -/
def exRooms : LogState :=
  let first := (Version.ofNat? 1).getD .zero
  (LogState.empty.commit ⟨.ofNat 7, default, default,
    [.ofStream "orders" ⟨.ofNat 1, first⟩ default none ⟨[exRoom], [], [exRed], []⟩,
      (Message.plain ⟨.ofNat 2, first⟩ default).takeLease exChair]⟩).2

/-- Extras that release whatever there is, the lease of the stream and that of the message key
included, and drop a tag that they attach. -/
def exReleasing : Extras :=
  ⟨[], [streamLease "orders", messageLease "orders" "k", exRoom, exChair, exRoom], [exRed], [exRed]⟩

/-- The stream and its next message with these extras. -/
def exOrders : Stream := .found "orders" ⟨.ofNat 1, (Version.ofNat? 1).getD .zero⟩

def exReleased : UnitOfWork :=
  ((UnitOfWork.start (.bare (.plain 0)) (.ok default)).stage 0 exOrders default
    (some (messageLease "orders" "k")) exReleasing).2

/-- The stream keeps its lease and gets that of the message key, the room is released, the chair
stays with the other entity, and the tag stays. -/
theorem extras_stay_attached_releasing :
    ∃ final, exRooms.apply ⟨.ofNat 8, default, default, exReleased.staged⟩ Invariant.standard =
        .ok final ∧
      final.Holds (.ofNat 1) (streamLease "orders") ∧
      final.Holds (.ofNat 1) (messageLease "orders" "k") ∧
      ¬ final.Holds (.ofNat 1) exRoom ∧ final.leaseHolder exChair = some (.ofNat 2) ∧
      final.Carries (.ofNat 1) exRed := by
  have hb : exRooms.Reachable := .commit _ .empty
  let source : Source := ⟨.ofNat 8, default, default, exReleased.staged⟩
  have ho : Overlay.applyAll exRooms Invariant.standard source .empty [] = .ok .empty := rfl
  let unit : UnitOfWork := .start (.bare (.plain 0)) (.ok default)
  have hs : unit.stage 0 exOrders default (some (messageLease "orders" "k")) exReleasing =
      (.ok ⟨.ofNat 1, (Version.ofNat? 2).getD .zero⟩, exReleased) := rfl
  obtain ⟨message, hstaged, hattached⟩ := extras_stay_attached hb ho hs
  have hmessages : source.messages = [] ++ [message] := hstaged
  have hmessage : Message.ofStream "orders" ⟨.ofNat 1, (Version.ofNat? 2).getD .zero⟩ default
      (some (messageLease "orders" "k")) exReleasing = message := (List.cons.inj hstaged).1
  have hchecked : Invariant.check (Overlay.empty.view exRooms) message Invariant.standard =
      .ok () := by
    rw [← hmessage]
    rfl
  obtain ⟨hfinal, happly⟩ := hattached hchecked
  refine ⟨_, happly hmessages, (hfinal.leases _).mpr (.inl rfl),
    (hfinal.leases _).mpr (.inr (.inl rfl)), fun hroom => ?_,
    (hfinal.index exChair (.ofNat 2)).mpr ?_, (hfinal.tags _).mpr (.inl (by decide))⟩
  · rcases (hfinal.leases exRoom).mp hroom with h | h | h | ⟨h, -⟩
    · exact absurd h (by decide)
    · exact absurd h (by decide)
    · exact absurd h (by decide)
    · exact absurd h (by decide)
  · obtain ⟨entity, he, hchair⟩ :=
      ((coherent_of_reachable hb).index exChair (.ofNat 2)).mp (by decide)
    refine ⟨entity, (hfinal.others (.ofNat 2) (by decide)).trans ?_, hchair⟩
    rw [OverlayLemmas.settled_empty, he]

end LeaseLog
