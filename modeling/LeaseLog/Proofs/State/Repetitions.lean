import LeaseLog.Proofs.Edits
import LeaseLog.Proofs.State.Accepted
import LeaseLog.State.Replay

/-!
# Repeated entries

A message may name a lease or a tag several times in one list. Rules and changes do not see it: the
uniqueness rule stops at the first appearance of a lease that it objects to, and each of the four
loops that apply a message has nothing left to do for an entry that it has met. Collapsing the
lists thus never changes what a message means.

Results:
1. `check_collapse`: the standard rules say the same of a message and of its collapsed form.
2. `apply_collapse`: both make the same changes.
3. `apply_sameMeaning`: sources whose messages mean the same are accepted with the same result or
   refused for the same reason; `replay_collapse`: a log may be collapsed before it is replayed.
4. `collapsing_keeps_meaning`: a message from edits has each entry once, and means what the message
   with all repetitions means, wherever it stands.
-/

namespace LeaseLog

/-! ## Definitions -/

/-- Two messages mean the same: the standard rules give one verdict on both in every view, and both
make the same changes to every overlay. -/
structure Message.SameMeaning (a b : Message) : Prop where
  verdict : ∀ view,
    Invariant.check view a Invariant.standard = Invariant.check view b Invariant.standard
  changes : ∀ base source (overlay : Overlay),
    overlay.apply base source a = overlay.apply base source b

/-- Two sources with one identity and time have messages that mean the same. -/
structure Source.SameMeaning (a b : Source) : Prop where
  id : a.id = b.id
  timestamp : a.timestamp = b.timestamp
  messages : List.Forall₂ Message.SameMeaning a.messages b.messages

/-- A source whose messages are collapsed. -/
def Source.collapse (source : Source) : Source :=
  { source with messages := source.messages.map Message.collapse }

/-- A source with a message among others. -/
def Source.around (source : Source) (earlier : List Message) (message : Message)
    (later : List Message) : Source :=
  { source with messages := earlier ++ message :: later }

/-- What a state says of entities and leases; the sources that led to it are left out. -/
def LogState.derived (state : LogState) : LogState := { state with sources := [] }

namespace RepetitionLemmas

/-! ## 1. Rules -/

section

variable {view : StateView} {id : Ident} {lease : Lease} {leases others : List Lease}

theorem heldElsewhere_append :
    Invariant.heldElsewhere view id (leases ++ others) =
      (Invariant.heldElsewhere view id leases).or (Invariant.heldElsewhere view id others) := by
  induction leases with
  | nil => rfl
  | cons lease leases ih =>
    simp only [List.cons_append, Invariant.heldElsewhere, ih]
    split
    · rfl
    · split <;> rfl

/-- A lease that was passed once is passed again. -/
theorem heldElsewhere_again (hm : lease ∈ leases) :
    (Invariant.heldElsewhere view id leases).or (Invariant.heldElsewhere view id [lease]) =
      Invariant.heldElsewhere view id leases := by
  cases hf : Invariant.heldElsewhere view id leases with
  | some found => rfl
  | none =>
    have hpassed := AcceptedLemmas.heldElsewhere_eq_none.mp hf lease hm
    have hagain : Invariant.heldElsewhere view id [lease] = none :=
      AcceptedLemmas.heldElsewhere_eq_none.mpr fun other ho =>
        List.mem_singleton.mp ho ▸ hpassed
    rw [hagain, Option.or_none]

/-- The first lease that somebody else holds is found at its first appearance. -/
theorem heldElsewhere_eraseDups (leases : List Lease) :
    Invariant.heldElsewhere view id leases.eraseDups = Invariant.heldElsewhere view id leases := by
  induction leases using List.reverseRecOn with
  | nil => rfl
  | append_singleton leases lease ih =>
    rw [eraseDups_concat, heldElsewhere_append]
    split
    · next hm => rw [ih, heldElsewhere_again hm]
    · rw [heldElsewhere_append, ih]

end

end RepetitionLemmas

open RepetitionLemmas

/-- The standard rules say the same of a message and of its collapsed form. -/
theorem check_collapse (view : StateView) (message : Message) :
    Invariant.check view message.collapse Invariant.standard =
      Invariant.check view message Invariant.standard := by
  have hunique : Invariant.uniqueLease.objection view message.collapse =
      Invariant.uniqueLease.objection view message := by
    simp only [Invariant.uniqueLease, Message.collapse, heldElsewhere_eraseDups]
  -- the version rule reads none of the lists
  have hcontiguous : Invariant.contiguousVersion.objection view message.collapse =
      Invariant.contiguousVersion.objection view message := rfl
  simp only [Invariant.standard, Invariant.check, hunique, hcontiguous]

/-! ## 2. Changes -/

namespace RepetitionLemmas

section

variable {α : Type} [Ord α] [Std.TransOrd α] [Std.LawfulEqOrd α]

theorem doneOnce_add :
    DoneOnce (OrdSet.add : OrdSet α → α → OrdSet α) fun items item => item ∈ items where
  does _ _ := OrdSet.mem_add.mpr (.inl rfl)
  stays _ _ _ h := OrdSet.mem_add.mpr (.inr h)
  again items item h := by
    refine Std.ExtTreeMap.ext_mem_unit fun other => ?_
    rw [OrdSet.mem_add]
    exact or_iff_right_of_imp fun he => he ▸ h

theorem doneOnce_remove :
    DoneOnce (OrdSet.remove : OrdSet α → α → OrdSet α) fun items item => item ∉ items where
  does _ _ h := (OrdSet.mem_remove.mp h).1 rfl
  stays _ _ _ h ho := h (OrdSet.mem_remove.mp ho).2
  again items item h := by
    refine Std.ExtTreeMap.ext_mem_unit fun other => ?_
    rw [OrdSet.mem_remove]
    exact and_iff_right_of_imp fun ho he => h (he ▸ ho)

end

/-- Once released, a lease is not the entity's any more, and only such leases are released. -/
theorem doneOnce_release (base : LogState) (id : Ident) :
    DoneOnce (Overlay.release base id) fun pending lease =>
      pending.1.leaseHolder base lease ≠ some id where
  does pending lease := by
    rw [OverlayLemmas.leaseHolder_release]
    by_cases h : pending.1.leaseHolder base lease = some id
    · rw [if_pos ⟨rfl, h⟩]
      exact fun hn => nomatch hn
    · rwa [if_neg fun hc => h hc.2]
  stays pending lease other h := by
    rwa [OverlayLemmas.leaseHolder_release, if_neg fun hc => h hc.2]
  again pending lease h := if_neg h

/-- Once taken, a lease is the entity's in the overlay and in the entity. -/
theorem doneOnce_acquire (id : Ident) :
    DoneOnce (Overlay.acquire id) fun pending lease =>
      pending.1.leases[lease]? = some (some id) ∧ lease ∈ pending.2.leases where
  does pending lease :=
    ⟨Std.ExtTreeMap.getElem?_insert_self, doneOnce_add.does pending.2.leases lease⟩
  stays pending lease other h := by
    refine ⟨?_, doneOnce_add.stays pending.2.leases lease other h.2⟩
    rw [Overlay.acquire, Std.ExtTreeMap.getElem?_insert, h.1, ite_self]
  again pending lease h := by
    have hindex : pending.1.leases.insert lease (some id) = pending.1.leases := by
      refine Std.ExtTreeMap.ext_getElem? fun other => ?_
      rw [Std.ExtTreeMap.getElem?_insert]
      split
      · next he => rw [← Std.LawfulEqCmp.eq_of_compare he, h.1]
      · rfl
    rw [Overlay.acquire, hindex, doneOnce_add.again pending.2.leases lease h.2]

end RepetitionLemmas

/-- A message and its collapsed form make the same changes to an overlay: none of the four loops
sees repetitions. -/
theorem apply_collapse (base : LogState) (source : Source) (overlay : Overlay) (message : Message) :
    overlay.apply base source message.collapse = overlay.apply base source message := by
  simp only [Overlay.apply, Message.collapse, (doneOnce_release base _).foldl_eraseDups,
    (doneOnce_acquire _).foldl_eraseDups, doneOnce_remove.foldl_eraseDups,
    doneOnce_add.foldl_eraseDups]

theorem sameMeaning_collapse (message : Message) : message.collapse.SameMeaning message where
  verdict view := check_collapse view message
  changes base source overlay := apply_collapse base source overlay message

/-! ## 3. Sources and logs -/

namespace RepetitionLemmas

instance : Std.Refl Message.SameMeaning := ⟨fun _ => ⟨fun _ => rfl, fun _ _ _ => rfl⟩⟩

section

variable {a b : Source} {messages others earlier later : List Message} {message other : Message}
  {left right : LogState}

/-- What a message changes depends on no more of the state than its entities and leases, and on no
more of the source than who wrote it and when. -/
theorem apply_congr (hs : left.derived = right.derived) (hid : a.id = b.id)
    (ht : a.timestamp = b.timestamp) (overlay : Overlay) (message : Message) :
    overlay.apply left a message = overlay.apply right b message := by
  cases left
  cases right
  cases a
  cases b
  cases hs
  cases hid
  cases ht
  rfl

theorem view_congr (hs : left.derived = right.derived) (overlay : Overlay) :
    overlay.view left = overlay.view right := by
  cases left
  cases right
  cases hs
  rfl

/-- Messages that mean the same gather the same changes, or the same one of them is refused. -/
theorem applyAll_sameMeaning (hs : left.derived = right.derived) (hid : a.id = b.id)
    (ht : a.timestamp = b.timestamp) (hm : List.Forall₂ Message.SameMeaning messages others)
    (overlay : Overlay) :
    Overlay.applyAll left Invariant.standard a overlay messages =
      Overlay.applyAll right Invariant.standard b overlay others := by
  induction hm generalizing overlay with
  | nil => rfl
  | cons hhead _ ih =>
    rw [Overlay.applyAll, Overlay.applyAll, view_congr hs, hhead.verdict, apply_congr hs hid ht,
      hhead.changes, ih]

theorem map_view_derived (result : Except Violation LogState) :
    (result.map LogState.derived).map LogState.view = result.map LogState.view := by
  cases result <;> rfl

theorem outcome_cases {collapsed repeated : Except Violation LogState}
    (h : collapsed.map LogState.derived = repeated.map LogState.derived) :
    (∃ violation, collapsed = .error violation ∧ repeated = .error violation) ∨
      ∃ left right, collapsed = .ok left ∧ repeated = .ok right ∧
        left.derived = right.derived := by
  cases collapsed with
  | error violation =>
    cases repeated with
    | error other =>
      cases h
      exact .inl ⟨violation, rfl, rfl⟩
    | ok right => cases h
  | ok left =>
    cases repeated with
    | error violation => cases h
    | ok right => exact .inr ⟨left, right, rfl, rfl, Except.ok.inj h⟩

theorem merge_congr (hs : left.derived = right.derived) (overlay : Overlay) :
    (overlay.merge left a).derived = (overlay.merge right b).derived := by
  cases left
  cases right
  cases hs
  rfl

theorem sameMeaning_around (h : message.SameMeaning other) (source : Source) :
    (source.around earlier message later).SameMeaning (source.around earlier other later) where
  id := rfl
  timestamp := rfl
  messages := List.rel_append (List.forall₂_refl earlier) (.cons h (List.forall₂_refl later))

theorem sameMeaning_source_collapse (source : Source) : source.collapse.SameMeaning source where
  id := rfl
  timestamp := rfl
  messages := List.forall₂_map_left_iff.mpr
    (List.forall₂_same.mpr fun message _ => sameMeaning_collapse message)

end

end RepetitionLemmas

/-- Sources that mean the same are accepted with the same result or refused for the same reason. -/
theorem apply_sameMeaning {left right : LogState} {a b : Source} (hs : left.derived = right.derived)
    (h : a.SameMeaning b) :
    (left.apply a Invariant.standard).map LogState.derived =
      (right.apply b Invariant.standard).map LogState.derived := by
  rw [LogState.apply, LogState.apply, applyAll_sameMeaning hs h.id h.timestamp h.messages]
  cases Overlay.applyAll right Invariant.standard b .empty b.messages with
  | error violation => rfl
  | ok overlay => exact congrArg Except.ok (merge_congr hs overlay)

/-- Logs whose sources mean the same are accepted with the same result, or refused at the same
source for the same reason. -/
theorem applyAll_sources_sameMeaning {left right : LogState} {sources others : List Source}
    (hs : left.derived = right.derived) (h : List.Forall₂ Source.SameMeaning sources others) :
    (LogState.applyAll Invariant.standard left sources).map LogState.derived =
      (LogState.applyAll Invariant.standard right others).map LogState.derived := by
  induction h generalizing left right with
  | nil => exact congrArg Except.ok hs
  | cons hhead _ ih =>
    rw [LogState.applyAll, LogState.applyAll, hhead.id]
    rcases outcome_cases (apply_sameMeaning hs hhead) with
      ⟨violation, hl, hr⟩ | ⟨left', right', hl, hr, hs'⟩
    · rw [hl, hr]
    · rw [hl, hr]
      exact ih hs'

/-- A log may be collapsed without any change to what it replays to. -/
theorem replay_collapse (sources : List Source) :
    (LogState.replay (sources.map Source.collapse) Invariant.standard).map LogState.derived =
      (LogState.replay sources Invariant.standard).map LogState.derived := by
  refine applyAll_sources_sameMeaning rfl ?_
  refine List.forall₂_map_left_iff.mpr (List.forall₂_same.mpr fun source _ => ?_)
  exact sameMeaning_source_collapse source

/-! ## 4. The result -/

/-- A message from edits has in each of its lists what the edits of that kind give, once each, in
the order of first appearance. It means what the message means whose lists have every entry as often
as it is given: whatever the state, the standard rules accept both or refuse both for the same
reason, and both leave the same overlay. So a source is accepted or refused with either of them
among its messages, and the state that it leads to shows the same versions and holders, the same
entities with their leases and tags in the same order, and the same index. -/
theorem collapsing_keeps_meaning (state : Pointer) (delta : Envelope) (edits : List Message.Edit) :
    let built := Message.ofEdits state delta edits
    let given := Message.verbatim state delta edits
    given.Collapsed built ∧ built.SameMeaning given ∧
      ∀ (log : LogState) (source : Source) (earlier later : List Message),
        let collapsed := log.apply (source.around earlier built later) Invariant.standard
        let repeated := log.apply (source.around earlier given later) Invariant.standard
        collapsed.map LogState.view = repeated.map LogState.view ∧
          collapsed.map LogState.derived = repeated.map LogState.derived := by
  intro built given
  have hsame : built.SameMeaning given := by
    show (Message.ofEdits state delta edits).SameMeaning _
    rw [ofEdits_eq_collapse]
    exact sameMeaning_collapse given
  refine ⟨collapsed_ofEdits state delta edits, hsame, ?_⟩
  intro log source earlier later collapsed repeated
  have hderived : collapsed.map LogState.derived = repeated.map LogState.derived :=
    apply_sameMeaning rfl (sameMeaning_around hsame source)
  refine ⟨?_, hderived⟩
  rw [← map_view_derived collapsed, hderived, map_view_derived]

end LeaseLog
