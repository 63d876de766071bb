import LeaseLog.Proofs.OrdSet
import LeaseLog.State.Overlay

/-!
# Applying a source message by message

A source is applied through an overlay: its messages gather there, every read goes through two
layers, and the live state changes at the end. This module gives the plain reading, in which each
message is checked against the actual state and written to it at once, and what was written is
taken back when a message breaks a rule.

Results:
1. `settled_apply`: adding a message to an overlay and settling it is settling the overlay and
   writing the message.
2. `apply_eq_writeAll`: applying a source gives the state that writing its messages gives, or the
   violation that writing them meets.
3. `merge_any_order`: the order in which pending changes are written back does not matter.
4. `apply_eq_transact`: what applying a source leaves behind, whether it is accepted or not, is what
   sequential execution with rollback leaves behind.
-/

namespace LeaseLog

/-! ## Definitions -/

namespace LogState

/-- The listed leases that the index gives to an entity. -/
def heldAmong (state : LogState) (id : Ident) (leases : List Lease) : List Lease :=
  leases.filter fun lease => state.leaseHolder lease = some id

/-- Writes a message to a state. Of the leases that it removes only those go that the index gives
to its entity; then it takes the leases that it adds, and likewise for tags. An entity that is
written for the first time is noted as created. -/
def write (source : Source) (state : LogState) (message : Message) : LogState :=
  let id := message.state.id
  let entity := (state.entity? id).getD (.unwritten source)
  let freed := state.heldAmong id message.removeLeases
  { entities := state.entities.insert id
      { version := message.state.version
        leases := message.addLeases.foldl OrdSet.add (freed.foldl OrdSet.remove entity.leases)
        tags := message.addTags.foldl OrdSet.add (message.removeTags.foldl OrdSet.remove entity.tags)
        lastSource := source.id
        updatedAt := source.timestamp }
    created := if (state.entity? id).isSome then state.created else state.created ++ [id]
    leases := message.addLeases.foldl (fun index lease => index.insert lease id)
      (freed.foldl (fun index lease => index.erase lease) state.leases)
    sources := state.sources }

/-- Checks and writes messages one after another, each against the state that the one before it
left, up to the first one that breaks a rule. -/
def writeAll (invariants : List Invariant) (source : Source) :
    LogState → List Message → Except Violation LogState
  | state, [] => .ok state
  | state, message :: messages =>
    match Invariant.check state.view message invariants with
    | .error violation => .error violation
    | .ok () => writeAll invariants source (state.write source message) messages

/-- Writes the messages of a source and notes the source. If a message breaks a rule, the state is
the one from before the source. -/
def transact (state : LogState) (source : Source) (invariants : List Invariant) :
    Except Violation Unit × LogState :=
  match writeAll invariants source state source.messages with
  | .error violation => (.error violation, state)
  | .ok written => (.ok (), { written with sources := state.sources ++ [source] })

/-- The verdict on a source, and the state after it was tried. -/
def tryApply (state : LogState) (source : Source) (invariants : List Invariant) :
    Except Violation Unit × LogState :=
  match state.apply source invariants with
  | .error violation => (.error violation, state)
  | .ok next => (.ok (), next)

end LogState

namespace Overlay

/-- Writes changes of leases back to an index, one after another. -/
def writeBack (index : Std.ExtTreeMap Lease Ident) (changes : List (Lease × Option Ident)) :
    Std.ExtTreeMap Lease Ident :=
  changes.foldl (fun index (lease, holder) => index.alter lease fun _ => holder) index

/-- The live state with pending changes written back in a given order. -/
def mergeInOrder (base : LogState) (overlay : Overlay) (source : Source)
    (entities : List (Ident × Entity)) (changes : List (Lease × Option Ident)) : LogState where
  entities := base.entities.insertMany entities
  created := base.created ++ overlay.created
  leases := writeBack base.leases changes
  sources := base.sources ++ [source]

end Overlay

/-- The results that applying a source may have, as the order in which pending changes are written
back is left open. -/
inductive LogState.MayApply (state : LogState) (source : Source) (invariants : List Invariant) :
    Except Violation LogState → Prop
  | refused {violation : Violation} :
      Overlay.applyAll state invariants source .empty source.messages = .error violation →
      MayApply state source invariants (.error violation)
  | accepted {overlay : Overlay} {entities : List (Ident × Entity)}
      {changes : List (Lease × Option Ident)} :
      Overlay.applyAll state invariants source .empty source.messages = .ok overlay →
      entities.Perm overlay.entities.toList → changes.Perm overlay.leases.toList →
      MayApply state source invariants (.ok (overlay.mergeInOrder state source entities changes))

/-- The live state with pending changes written back; the source that made them is not noted. -/
def Overlay.settled (base : LogState) (overlay : Overlay) : LogState :=
  { overlay.merge base default with sources := base.sources }

/-! ## Looking up what was written -/

namespace LogState

variable {state : LogState} {source : Source} {message : Message}

theorem ext_lookup {a b : LogState} (he : ∀ id, a.entity? id = b.entity? id)
    (hc : a.created = b.created) (hl : ∀ lease, a.leaseHolder lease = b.leaseHolder lease)
    (hs : a.sources = b.sources) : a = b := by
  have entities : a.entities = b.entities := Std.ExtTreeMap.ext_getElem? he
  have leases : a.leases = b.leases := Std.ExtTreeMap.ext_getElem? hl
  cases a
  cases b
  simp_all

theorem mem_heldAmong {id : Ident} {leases : List Lease} {lease : Lease} :
    lease ∈ state.heldAmong id leases ↔ lease ∈ leases ∧ state.leaseHolder lease = some id := by
  simp [heldAmong]

theorem getElem?_foldl_insert {leases : List Lease} {id : Ident}
    {index : Std.ExtTreeMap Lease Ident} {lease : Lease} :
    (leases.foldl (fun index lease => index.insert lease id) index)[lease]? =
      if lease ∈ leases then some id else index[lease]? := by
  induction leases generalizing index with
  | nil => simp
  | cons head leases ih =>
    rw [List.foldl_cons, ih, Std.ExtTreeMap.getElem?_insert]
    by_cases ht : lease ∈ leases
    · simp [ht]
    · by_cases he : head = lease
      · simp [he]
      · simp [ht, he, Ne.symm he]

theorem getElem?_foldl_erase {leases : List Lease} {index : Std.ExtTreeMap Lease Ident}
    {lease : Lease} :
    (leases.foldl (fun index lease => index.erase lease) index)[lease]? =
      if lease ∈ leases then none else index[lease]? := by
  induction leases generalizing index with
  | nil => simp
  | cons head leases ih =>
    rw [List.foldl_cons, ih, Std.ExtTreeMap.getElem?_erase]
    by_cases ht : lease ∈ leases
    · simp [ht]
    · by_cases he : head = lease
      · simp [he]
      · simp [ht, he, Ne.symm he]

theorem entity?_write_self :
    (state.write source message).entity? message.state.id =
      some
        { version := message.state.version
          leases := message.addLeases.foldl OrdSet.add
            ((state.heldAmong message.state.id message.removeLeases).foldl OrdSet.remove
              ((state.entity? message.state.id).getD (.unwritten source)).leases)
          tags := message.addTags.foldl OrdSet.add (message.removeTags.foldl OrdSet.remove
            ((state.entity? message.state.id).getD (.unwritten source)).tags)
          lastSource := source.id
          updatedAt := source.timestamp } := by
  simp only [write, entity?, Std.ExtTreeMap.getElem?_insert_self]

theorem entity?_write_of_ne {id : Ident} (h : id ≠ message.state.id) :
    (state.write source message).entity? id = state.entity? id := by
  simp [write, entity?, Std.ExtTreeMap.getElem?_insert, Ne.symm h]

/-- An added lease belongs to the entity of the message, a removed one that the entity held to
nobody, and any other lease to whom it belonged before. -/
theorem leaseHolder_write {lease : Lease} :
    (state.write source message).leaseHolder lease =
      if lease ∈ message.addLeases then some message.state.id
      else if lease ∈ message.removeLeases ∧ state.leaseHolder lease = some message.state.id then none
      else state.leaseHolder lease := by
  simp only [write, leaseHolder, getElem?_foldl_insert, getElem?_foldl_erase]
  exact if_congr Iff.rfl rfl (if_congr mem_heldAmong rfl rfl)

theorem versionOf_write {id : Ident} :
    (state.write source message).versionOf id =
      if id = message.state.id then message.state.version else state.versionOf id := by
  by_cases h : id = message.state.id
  · subst h
    simp only [versionOf, entity?_write_self, if_true]
  · simp only [versionOf, entity?_write_of_ne h, h, if_false]

theorem created_write :
    (state.write source message).created =
      if (state.entity? message.state.id).isSome then state.created
      else state.created ++ [message.state.id] := rfl

end LogState

/-! ## Settling an overlay -/

namespace OverlayLemmas

open Overlay

variable {base : LogState} {overlay : Overlay} {source : Source} {message : Message} {id : Ident}

theorem getElem?_writeBack_of_forall_ne {changes : List (Lease × Option Ident)}
    {index : Std.ExtTreeMap Lease Ident} {lease : Lease} (hn : ∀ change ∈ changes, change.1 ≠ lease) :
    (writeBack index changes)[lease]? = index[lease]? := by
  induction changes generalizing index with
  | nil => rfl
  | cons change changes ih =>
    rw [writeBack, List.foldl_cons]
    refine (ih fun other ho => hn other (List.mem_cons_of_mem _ ho)).trans ?_
    rw [Std.ExtTreeMap.getElem?_alter, if_neg]
    simpa using hn change List.mem_cons_self

theorem getElem?_writeBack_of_mem {changes : List (Lease × Option Ident)}
    {index : Std.ExtTreeMap Lease Ident} {lease : Lease} {holder : Option Ident}
    (hd : changes.Pairwise fun a b => a.1 ≠ b.1) (hm : (lease, holder) ∈ changes) :
    (writeBack index changes)[lease]? = holder := by
  induction changes generalizing index with
  | nil => exact absurd hm List.not_mem_nil
  | cons change changes ih =>
    obtain ⟨hne, hd⟩ := List.pairwise_cons.mp hd
    rw [writeBack, List.foldl_cons]
    rcases List.mem_cons.mp hm with rfl | hm
    · refine (getElem?_writeBack_of_forall_ne fun other ho => (hne other ho).symm).trans ?_
      simp
    · exact ih hd hm

theorem distinct_changes (changes : Std.ExtTreeMap Lease (Option Ident)) :
    changes.toList.Pairwise fun a b => a.1 ≠ b.1 :=
  Std.ExtTreeMap.distinct_keys_toList.imp fun h => by simpa using h

/-- The changes of an overlay may be written back in any order, as each lease has one of them. -/
theorem writeBack_any_order {index : Std.ExtTreeMap Lease Ident}
    {changes : Std.ExtTreeMap Lease (Option Ident)} {order : List (Lease × Option Ident)}
    (h : order.Perm changes.toList) : writeBack index order = writeBack index changes.toList := by
  refine Std.ExtTreeMap.ext_getElem? fun lease => ?_
  have hd : order.Pairwise fun a b => a.1 ≠ b.1 :=
    (h.pairwise_iff fun hab => Ne.symm hab).mpr (distinct_changes changes)
  by_cases hl : ∃ holder, (lease, holder) ∈ order
  · obtain ⟨holder, hm⟩ := hl
    rw [getElem?_writeBack_of_mem hd hm,
      getElem?_writeBack_of_mem (distinct_changes changes) (h.mem_iff.mp hm)]
  · have hn : ∀ change ∈ order, change.1 ≠ lease := fun change hm he => hl ⟨change.2, he ▸ hm⟩
    rw [getElem?_writeBack_of_forall_ne hn,
      getElem?_writeBack_of_forall_ne fun change hm => hn change (h.mem_iff.mpr hm)]

theorem entity?_settled :
    (overlay.settled base).entity? id = (overlay.entities[id]?).or (base.entity? id) := by
  simp only [settled, merge, LogState.entity?, Std.ExtTreeMap.getElem?_union]

theorem leaseHolder_settled {lease : Lease} :
    (overlay.settled base).leaseHolder lease = overlay.leaseHolder base lease := by
  show (writeBack base.leases overlay.leases.toList)[lease]? = _
  rw [Overlay.leaseHolder]
  cases hc : overlay.leases[lease]? with
  | none =>
    refine getElem?_writeBack_of_forall_ne fun change hm he => ?_
    have hg := Std.ExtTreeMap.mem_toList_iff_getElem?_eq_some.mp hm
    rw [he, hc] at hg
    exact absurd hg (by simp)
  | some holder =>
    exact getElem?_writeBack_of_mem (distinct_changes overlay.leases)
      (Std.ExtTreeMap.mem_toList_iff_getElem?_eq_some.mpr hc)

theorem view_settled : (overlay.settled base).view = overlay.view base := by
  have versions : (overlay.settled base).versionOf = overlay.versionOf base := by
    funext id
    simp only [LogState.versionOf, Overlay.versionOf, entity?_settled]
    cases overlay.entities[id]? <;> rfl
  have holders : (overlay.settled base).leaseHolder = overlay.leaseHolder base :=
    funext fun _ => leaseHolder_settled
  rw [LogState.view, Overlay.view, versions, holders]

theorem settled_empty : Overlay.empty.settled base = base := by
  refine LogState.ext_lookup (fun id => ?_) ?_ (fun lease => ?_) rfl
  · simp [entity?_settled, Overlay.empty]
  · simp [settled, merge, Overlay.empty]
  · simp [leaseHolder_settled, Overlay.leaseHolder, Overlay.empty]

/-! The steps of `Overlay.apply`: fetching the entity, releasing leases and taking leases. -/

theorem fetch_frame :
    (overlay.fetch base id source).1.entities = overlay.entities ∧
    (overlay.fetch base id source).1.leases = overlay.leases := by
  unfold fetch
  split
  · exact ⟨rfl, rfl⟩
  · split <;> exact ⟨rfl, rfl⟩

theorem fetch_entity :
    (overlay.fetch base id source).2 =
      ((overlay.settled base).entity? id).getD (.unwritten source) := by
  rw [entity?_settled]
  unfold fetch
  split
  · next h => simp [h]
  · next h => split <;> simp_all

theorem fetch_created :
    base.created ++ (overlay.fetch base id source).1.created =
      if ((overlay.settled base).entity? id).isSome then (overlay.settled base).created
      else (overlay.settled base).created ++ [id] := by
  rw [entity?_settled]
  unfold fetch
  split
  · next h => simp [h, settled, merge]
  · next h => split <;> simp_all [settled, merge]

theorem foldl_release_frame {leases : List Lease} {pending : Overlay × Entity} :
    (leases.foldl (release base id) pending).1.entities = pending.1.entities ∧
    (leases.foldl (release base id) pending).1.created = pending.1.created ∧
    (leases.foldl (release base id) pending).2.tags = pending.2.tags := by
  induction leases generalizing pending with
  | nil => exact ⟨rfl, rfl, rfl⟩
  | cons lease leases ih =>
    rw [List.foldl_cons]
    obtain ⟨he, hc, ht⟩ := @ih (release base id pending lease)
    rw [he, hc, ht]
    unfold release
    split <;> exact ⟨rfl, rfl, rfl⟩

theorem leaseHolder_change {lease other : Lease} {holder : Option Ident} :
    Overlay.leaseHolder base { overlay with leases := overlay.leases.insert lease holder } other =
      if other = lease then holder else overlay.leaseHolder base other := by
  by_cases he : other = lease
  · simp [he, leaseHolder]
  · simp [he, leaseHolder, Std.ExtTreeMap.getElem?_insert, Ne.symm he]

theorem leaseHolder_release {lease other : Lease} {pending : Overlay × Entity} :
    (release base id pending lease).1.leaseHolder base other =
      if other = lease ∧ pending.1.leaseHolder base other = some id then none
      else pending.1.leaseHolder base other := by
  unfold release
  by_cases he : other = lease
  · subst he
    split
    · next h => rw [leaseHolder_change, if_pos rfl, if_pos ⟨rfl, h⟩]
    · next h => simp [h]
  · split
    · simp [leaseHolder_change, he]
    · simp [he]

theorem mem_leases_release {lease other : Lease} {pending : Overlay × Entity} :
    other ∈ (release base id pending lease).2.leases ↔
      other ∈ pending.2.leases ∧
        ¬ (other = lease ∧ pending.1.leaseHolder base other = some id) := by
  unfold release
  by_cases he : other = lease
  · subst he
    split
    · next h => simp [h]
    · next h => simp [h]
  · split <;> simp [he]

theorem leaseHolder_foldl_release {leases : List Lease} {pending : Overlay × Entity}
    {lease : Lease} :
    (leases.foldl (release base id) pending).1.leaseHolder base lease =
      if lease ∈ leases ∧ pending.1.leaseHolder base lease = some id then none
      else pending.1.leaseHolder base lease := by
  induction leases generalizing pending with
  | nil => simp
  | cons head leases ih =>
    rw [List.foldl_cons, ih, leaseHolder_release]
    -- only a lease that the entity holds at first is touched, and it is released once
    by_cases hh : pending.1.leaseHolder base lease = some id
    · by_cases he : lease = head <;> simp [hh, he]
    · simp [hh]

theorem mem_leases_foldl_release {leases : List Lease} {pending : Overlay × Entity}
    {lease : Lease} :
    lease ∈ (leases.foldl (release base id) pending).2.leases ↔
      lease ∈ pending.2.leases ∧
        ¬ (lease ∈ leases ∧ pending.1.leaseHolder base lease = some id) := by
  induction leases generalizing pending with
  | nil => simp
  | cons head leases ih =>
    rw [List.foldl_cons, ih, mem_leases_release, leaseHolder_release]
    by_cases hh : pending.1.leaseHolder base lease = some id
    · by_cases he : lease = head <;> simp [hh, he]
    · simp [hh]

theorem foldl_acquire_frame {leases : List Lease} {pending : Overlay × Entity} :
    (leases.foldl (acquire id) pending).1.entities = pending.1.entities ∧
    (leases.foldl (acquire id) pending).1.created = pending.1.created ∧
    (leases.foldl (acquire id) pending).2.tags = pending.2.tags ∧
    (leases.foldl (acquire id) pending).2.leases =
      leases.foldl OrdSet.add pending.2.leases := by
  induction leases generalizing pending with
  | nil => exact ⟨rfl, rfl, rfl, rfl⟩
  | cons lease leases ih =>
    simp only [List.foldl_cons]
    exact @ih (acquire id pending lease)

theorem leaseHolder_foldl_acquire {leases : List Lease} {pending : Overlay × Entity}
    {lease : Lease} :
    (leases.foldl (acquire id) pending).1.leaseHolder base lease =
      if lease ∈ leases then some id else pending.1.leaseHolder base lease := by
  induction leases generalizing pending with
  | nil => simp
  | cons head leases ih =>
    rw [List.foldl_cons, ih]
    simp only [acquire, leaseHolder_change, List.mem_cons]
    by_cases ht : lease ∈ leases <;> simp [ht]

/-! What a message leaves of the overlay and of its entity before the entity is put back. -/

/-- The overlay and the entity after a message removed and added its leases. -/
def taken (base : LogState) (source : Source) (overlay : Overlay) (message : Message) :
    Overlay × Entity :=
  message.addLeases.foldl (acquire message.state.id)
    (message.removeLeases.foldl (release base message.state.id)
      (overlay.fetch base message.state.id source))

theorem taken_entities : (taken base source overlay message).1.entities = overlay.entities := by
  rw [taken, foldl_acquire_frame.1, foldl_release_frame.1, fetch_frame.1]

theorem taken_created :
    base.created ++ (taken base source overlay message).1.created =
      ((overlay.settled base).write source message).created := by
  rw [taken, foldl_acquire_frame.2.1, foldl_release_frame.2.1, fetch_created, LogState.created_write]

theorem taken_tags :
    (taken base source overlay message).2.tags =
      (((overlay.settled base).entity? message.state.id).getD (.unwritten source)).tags := by
  rw [taken, foldl_acquire_frame.2.2.1, foldl_release_frame.2.2, fetch_entity]

theorem fetch_leaseHolder {lease : Lease} :
    (overlay.fetch base id source).1.leaseHolder base lease =
      (overlay.settled base).leaseHolder lease := by
  rw [leaseHolder_settled, Overlay.leaseHolder, fetch_frame.2, Overlay.leaseHolder]

theorem taken_leaseHolder {lease : Lease} :
    (taken base source overlay message).1.leaseHolder base lease =
      ((overlay.settled base).write source message).leaseHolder lease := by
  rw [taken, leaseHolder_foldl_acquire, leaseHolder_foldl_release, fetch_leaseHolder,
    LogState.leaseHolder_write]

theorem taken_leases :
    (taken base source overlay message).2.leases =
      message.addLeases.foldl OrdSet.add
        (((overlay.settled base).heldAmong message.state.id message.removeLeases).foldl
          OrdSet.remove
          (((overlay.settled base).entity? message.state.id).getD (.unwritten source)).leases) := by
  refine Std.ExtTreeMap.ext_mem_unit fun lease => ?_
  rw [taken, foldl_acquire_frame.2.2.2, OrdSet.mem_foldl_add, mem_leases_foldl_release,
    fetch_leaseHolder, fetch_entity, OrdSet.mem_foldl_add, OrdSet.mem_foldl_remove,
    LogState.mem_heldAmong, and_comm (b := _ ∈ _)]

end OverlayLemmas

open OverlayLemmas

/-! ## 1. One message -/

/-- Adding a message to an overlay and settling it is settling the overlay and writing the
message: no read of `Overlay.apply` sees anything but the state that the messages before it left. -/
theorem settled_apply (base : LogState) (source : Source) (overlay : Overlay) (message : Message) :
    (overlay.apply base source message).settled base =
      (overlay.settled base).write source message := by
  refine LogState.ext_lookup (fun id => ?_) taken_created (fun lease => ?_) rfl
  · rw [entity?_settled]
    show (((taken base source overlay message).1.entities.insert message.state.id _)[id]?).or _ =
      _
    rw [taken_entities, Std.ExtTreeMap.getElem?_insert]
    by_cases he : id = message.state.id
    · subst he
      rw [if_pos Std.ReflCmp.compare_self, LogState.entity?_write_self, ← taken_leases,
        ← taken_tags]
      rfl
    · rw [LogState.entity?_write_of_ne he, entity?_settled,
        if_neg (by simpa using Ne.symm he)]
  · rw [leaseHolder_settled]
    exact taken_leaseHolder

/-! ## 2. One source -/

theorem applyAll_settled (base : LogState) (invariants : List Invariant) (source : Source)
    (overlay : Overlay) (messages : List Message) :
    (Overlay.applyAll base invariants source overlay messages).map (Overlay.settled base) =
      LogState.writeAll invariants source (overlay.settled base) messages := by
  induction messages generalizing overlay with
  | nil => rfl
  | cons message messages ih =>
    rw [Overlay.applyAll, LogState.writeAll, view_settled]
    cases Invariant.check (overlay.view base) message invariants with
    | error violation => rfl
    | ok _ => exact (ih _).trans (by rw [settled_apply])

/-- Applying a source writes its messages one after another to the state itself. -/
theorem apply_eq_writeAll (state : LogState) (source : Source) (invariants : List Invariant) :
    state.apply source invariants =
      (LogState.writeAll invariants source state source.messages).map fun written =>
        { written with sources := state.sources ++ [source] } := by
  have h := applyAll_settled state invariants source .empty source.messages
  rw [settled_empty] at h
  rw [LogState.apply, ← h]
  cases Overlay.applyAll state invariants source .empty source.messages <;> rfl

/-! ## 3. The order of writing back -/

namespace OverlayLemmas

variable {base : LogState} {overlay : Overlay} {source : Source}

theorem getElem?_insertMany_perm {base changed : Std.ExtTreeMap Ident Entity}
    {order : List (Ident × Entity)} (h : order.Perm changed.toList) (id : Ident) :
    (base.insertMany order)[id]? = (changed[id]?).or base[id]? := by
  have hd : order.Pairwise fun a b => ¬ compare a.1 b.1 = .eq :=
    (h.pairwise_iff fun hab he => hab (Std.OrientedCmp.eq_symm he)).mpr
      Std.ExtTreeMap.distinct_keys_toList
  cases hc : changed[id]? with
  | none =>
    refine Std.ExtTreeMap.getElem?_insertMany_list_of_contains_eq_false ?_
    simp only [List.contains_eq_mem, decide_eq_false_iff_not]
    intro hm
    obtain ⟨⟨other, entity⟩, hp, rfl⟩ := List.mem_map.mp hm
    rw [Std.ExtTreeMap.mem_toList_iff_getElem?_eq_some.mp (h.mem_iff.mp hp)] at hc
    cases hc
  | some entity =>
    exact Std.ExtTreeMap.getElem?_insertMany_list_of_mem Std.ReflCmp.compare_self hd
      (h.mem_iff.mpr (Std.ExtTreeMap.mem_toList_iff_getElem?_eq_some.mpr hc))

end OverlayLemmas

/-- Pending changes may be written back in any order. -/
theorem merge_any_order {base : LogState} {overlay : Overlay} (source : Source)
    {entities : List (Ident × Entity)} {changes : List (Lease × Option Ident)}
    (he : entities.Perm overlay.entities.toList) (hc : changes.Perm overlay.leases.toList) :
    overlay.mergeInOrder base source entities changes = overlay.merge base source := by
  refine LogState.ext_lookup (fun id => ?_) rfl (fun lease => ?_) rfl
  · simp only [LogState.entity?, Overlay.mergeInOrder, Overlay.merge, getElem?_insertMany_perm he,
      Std.ExtTreeMap.getElem?_union]
  · simp only [LogState.leaseHolder, Overlay.mergeInOrder, writeBack_any_order hc]
    rfl

/-! ## 4. Verdict and state -/

/-- The overlay is sequential execution with rollback. For every state, every source and every list
of rules, applying the source gives the verdict of writing its messages one after another, each
checked against the actual state; an accepted source leaves the very state that this writing leaves,
with all its entities, leases, orders and sources, and a refused one the state from before. No order
of writing back gives anything else. -/
theorem apply_eq_transact (state : LogState) (source : Source) (invariants : List Invariant) :
    state.tryApply source invariants = state.transact source invariants ∧
    ∀ result, state.MayApply source invariants result ↔ result = state.apply source invariants := by
  refine ⟨?_, fun result => ⟨fun h => ?_, ?_⟩⟩
  · rw [LogState.tryApply, LogState.transact, apply_eq_writeAll]
    cases LogState.writeAll invariants source state source.messages <;> rfl
  · cases h with
    | refused ha => rw [LogState.apply, ha]
    | accepted ha he hc => rw [LogState.apply, ha, merge_any_order source he hc]
  · rintro rfl
    cases ha : Overlay.applyAll state invariants source .empty source.messages with
    | error violation =>
      rw [LogState.apply, ha]
      exact .refused ha
    | ok overlay =>
      have hm := LogState.MayApply.accepted ha (.refl _) (.refl _)
      rw [merge_any_order source (.refl _) (.refl _)] at hm
      rw [LogState.apply, ha]
      exact hm

end LeaseLog
