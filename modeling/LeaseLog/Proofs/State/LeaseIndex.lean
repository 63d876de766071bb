import LeaseLog.Listing
import LeaseLog.Proofs.State.Reachable

/-!
# The lease index and the lease sets

Who holds a lease is stored twice: in the index of the log, and in the set of every entity. A
message updates both, through an overlay, and is checked against the state before it removes
anything. In every reachable state the two agree, and the list of created entities is complete, so
no listing drops a row.

Results:
1. `Coherent.write`: an admissible message keeps the agreement.
2. `coherent_of_reachable`: it holds in every reachable state.
3. `lease_index_agrees`: what follows for the index, the sets and the listings.
-/

namespace LeaseLog

/-! ## Definitions -/

/-- The index, the lease sets and the list of created entities describe the same entities. -/
structure LogState.Coherent (state : LogState) : Prop where
  /-- The index names exactly the entity that has a lease in its set. -/
  index : ∀ lease id, state.leaseHolder lease = some id ↔
    ∃ entity, state.entity? id = some entity ∧ lease ∈ entity.leases
  /-- Every entity was written. -/
  positive : ∀ id entity, state.entity? id = some entity → 1 ≤ entity.version.toNat
  /-- The created entities are the existing ones. -/
  mem_created : ∀ id, id ∈ state.created ↔ (state.entity? id).isSome
  /-- An entity is created once. -/
  nodup_created : state.created.Nodup

/-! ## 1. One message -/

namespace LeaseIndexLemmas

variable {state : LogState} {source : Source} {message : Message}

theorem mem_leases_getD (hc : state.Coherent) {id : Ident} {lease : Lease} :
    lease ∈ ((state.entity? id).getD (.unwritten source)).leases ↔
      state.leaseHolder lease = some id := by
  rw [hc.index]
  cases state.entity? id with
  | none => simp [Entity.unwritten]
  | some entity => simp

theorem index_write_self (hc : state.Coherent) {lease : Lease} :
    (state.write source message).leaseHolder lease = some message.state.id ↔
      ∃ entity, (state.write source message).entity? message.state.id = some entity ∧
        lease ∈ entity.leases := by
  simp only [LogState.entity?_write_self, Option.some.injEq, exists_eq_left',
    OrdSet.mem_foldl_add, OrdSet.mem_foldl_remove, LogState.mem_heldAmong, mem_leases_getD hc,
    LogState.leaseHolder_write]
  split
  · next h => simp [h]
  · next h => split <;> simp_all

theorem index_write_of_ne (hc : state.Coherent) (ha : Admissible state.view message) {id : Ident}
    (hne : id ≠ message.state.id) {lease : Lease} :
    (state.write source message).leaseHolder lease = some id ↔
      ∃ entity, (state.write source message).entity? id = some entity ∧
        lease ∈ entity.leases := by
  rw [LogState.entity?_write_of_ne hne, ← hc.index, LogState.leaseHolder_write]
  split
  · next h =>
    -- nobody else may hold a lease that the message adds
    refine ⟨fun hw => absurd (Option.some.inj hw) (Ne.symm hne), fun hb => ?_⟩
    exact absurd (ha.free lease h id hb) hne
  · split
    · next h => simp [h.2, Ne.symm hne]
    · rfl

theorem isSome_entity?_write {id : Ident} :
    ((state.write source message).entity? id).isSome ↔
      id = message.state.id ∨ (state.entity? id).isSome := by
  by_cases he : id = message.state.id
  · subst he
    simp [LogState.entity?_write_self]
  · simp [LogState.entity?_write_of_ne he, he]

end LeaseIndexLemmas

open LeaseIndexLemmas

/-- Writing an admissible message keeps the index and the lease sets in agreement. A removal by an
entity that does not hold the lease changes neither of them. -/
theorem LogState.Coherent.write {state : LogState} {message : Message} (hc : state.Coherent)
    (source : Source) (ha : Admissible state.view message) :
    (state.write source message).Coherent where
  index lease id := by
    by_cases he : id = message.state.id
    · subst he
      exact index_write_self hc
    · exact index_write_of_ne hc ha he
  positive id entity h := by
    by_cases he : id = message.state.id
    · subst he
      rw [LogState.entity?_write_self, Option.some.injEq] at h
      subst h
      rw [ha.follows]
      exact Nat.le_add_left 1 _
    · rw [LogState.entity?_write_of_ne he] at h
      exact hc.positive id entity h
  mem_created id := by
    rw [isSome_entity?_write, LogState.created_write, ← hc.mem_created id]
    split
    · next h =>
      have hm : message.state.id ∈ state.created := (hc.mem_created _).mpr h
      exact ⟨.inr, fun hor => hor.elim (fun he => he ▸ hm) (fun hb => hb)⟩
    · rw [List.mem_append, List.mem_singleton, or_comm]
  nodup_created := by
    rw [LogState.created_write]
    split
    · exact hc.nodup_created
    · next h =>
      have hn : message.state.id ∉ state.created := fun hm => h ((hc.mem_created _).mp hm)
      exact List.nodup_append.mpr ⟨hc.nodup_created, by simp, by
        rintro a hm b hb rfl
        cases List.mem_singleton.mp hb
        exact hn hm⟩

/-! ## 2. Every reachable state -/

theorem LogState.Coherent.apply {state final : LogState} {source : Source} (hc : state.Coherent)
    (h : state.apply source Invariant.standard = .ok final) : final.Coherent := by
  have hk : KeptByWrites source source.messages fun _ current => current.Coherent :=
    fun _ _ _ _ hp ha => hp.write source ha
  obtain ⟨written, hw, rfl⟩ := apply_induction h hc hk
  exact ⟨hw.index, hw.positive, hw.mem_created, hw.nodup_created⟩

theorem coherent_of_reachable {state : LogState} (h : state.Reachable) : state.Coherent := by
  refine reachable_induction ⟨fun _ _ => ?_, fun _ _ he => ?_, fun _ => ?_, List.nodup_nil⟩
    (fun _ _ _ hc ha => hc.apply ha) h
  · simp [LogState.leaseHolder, LogState.entity?, LogState.empty]
  · simp [LogState.entity?, LogState.empty] at he
  · simp [LogState.entity?, LogState.empty]

/-! ## 3. The index, the sets and the listings -/

namespace LeaseIndexLemmas

theorem map_filterMap_of_forall {α β γ : Type} {f : α → Option β} {g : β → γ} {k : α → γ}
    {items : List α} (h : ∀ a ∈ items, ∃ b, f a = some b ∧ g b = k a) :
    (items.filterMap f).map g = items.map k := by
  induction items with
  | nil => rfl
  | cons a items ih =>
    obtain ⟨b, hf, hg⟩ := h a List.mem_cons_self
    rw [List.filterMap_cons_some hf, List.map_cons, List.map_cons, hg,
      ih fun a hm => h a (List.mem_cons_of_mem _ hm)]

variable {state : LogState}

theorem entityList_ids (hc : state.Coherent) : state.entityList.map Prod.fst = state.created := by
  rw [LogState.entityList, map_filterMap_of_forall (k := id) fun id hm => ?_]
  · exact List.map_id _
  · obtain ⟨entity, he⟩ := Option.isSome_iff_exists.mp ((hc.mem_created id).mp hm)
    exact ⟨(id, entity), by simp [he], rfl⟩

theorem leaseRows_leases (hc : state.Coherent) :
    (Listing.leaseRows state).map (fun row => (row.2.lease, row.2.state.id)) = state.leaseList := by
  rw [Listing.leaseRows, map_filterMap_of_forall (k := id) fun pair hm => ?_]
  · exact List.map_id _
  · obtain ⟨lease, holder⟩ := pair
    have hl : state.leaseHolder lease = some holder :=
      Std.ExtTreeMap.mem_toList_iff_getElem?_eq_some.mp hm
    obtain ⟨entity, he, -⟩ := (hc.index lease holder).mp hl
    refine ⟨(Listing.entityRow holder entity [lease] [], ⟨lease, ⟨holder, entity.version⟩⟩), ?_, rfl⟩
    simp only [he, Option.map_some]

end LeaseIndexLemmas

/-- The lease index and the entity sets agree in every reachable state. So no lease is in the sets
of two entities, every holder in the index is an entity of version one or more, every existing
entity is created exactly once and listed, and every lease of the index has a row with its holder. -/
theorem lease_index_agrees {state : LogState} (h : state.Reachable) :
    (∀ lease id, state.leaseHolder lease = some id ↔
      ∃ entity, state.entity? id = some entity ∧ lease ∈ entity.leases) ∧
    (∀ lease id₁ id₂ entity₁ entity₂, state.entity? id₁ = some entity₁ →
      state.entity? id₂ = some entity₂ → lease ∈ entity₁.leases → lease ∈ entity₂.leases →
      id₁ = id₂) ∧
    (∀ lease id, state.leaseHolder lease = some id →
      ∃ entity, state.entity? id = some entity ∧ 1 ≤ entity.version.toNat) ∧
    (∀ id, id ∈ state.created ↔ (state.entity? id).isSome) ∧ state.created.Nodup ∧
    state.entityList.map Prod.fst = state.created ∧
    (Listing.leaseRows state).map (fun row => (row.2.lease, row.2.state.id)) =
      state.leaseList := by
  have hc := coherent_of_reachable h
  refine ⟨hc.index, ?_, ?_, hc.mem_created, hc.nodup_created, entityList_ids hc,
    leaseRows_leases hc⟩
  · intro lease id₁ id₂ entity₁ entity₂ h₁ h₂ hl₁ hl₂
    have held₁ := (hc.index lease id₁).mpr ⟨entity₁, h₁, hl₁⟩
    have held₂ := (hc.index lease id₂).mpr ⟨entity₂, h₂, hl₂⟩
    exact Option.some.inj (held₁.symm.trans held₂)
  · intro lease id hl
    obtain ⟨entity, he, -⟩ := (hc.index lease id).mp hl
    exact ⟨entity, he, hc.positive id entity he⟩

/-- One entity takes a lease, and then, in one source, releases it to another one. -/
def exMoved : LogState :=
  let source (n : Nat) (messages : List Message) : Source := ⟨.ofNat n, default, default, messages⟩
  let write (id n : Nat) : Message := .plain ⟨.ofNat id, (Version.ofNat? n).getD .zero⟩ default
  let room : Lease := ⟨"room", "name", "blue"⟩
  let taken := (LogState.empty.commit (source 8 [(write 1 1).takeLease room])).2
  (taken.commit (source 9 [(write 1 2).releaseLease room, (write 2 1).takeLease room])).2

/-- The lease that was moved is in the set of the second entity, as the index says, and not in the
set of the first one. -/
theorem lease_index_agrees_moved :
    exMoved.Reachable ∧ exMoved.leaseHolder ⟨"room", "name", "blue"⟩ = some (.ofNat 2) ∧
    (∃ entity, exMoved.entity? (.ofNat 2) = some entity ∧
      ⟨"room", "name", "blue"⟩ ∈ entity.leases) ∧
    ∀ entity, exMoved.entity? (.ofNat 1) = some entity →
      ⟨"room", "name", "blue"⟩ ∉ entity.leases := by
  have hr : exMoved.Reachable := .commit _ (.commit _ .empty)
  have hl : exMoved.leaseHolder ⟨"room", "name", "blue"⟩ = some (.ofNat 2) := by decide
  have hi := (lease_index_agrees hr).1
  refine ⟨hr, hl, (hi _ _).mp hl, fun entity he hm => ?_⟩
  have hother := (hi _ _).mpr ⟨entity, he, hm⟩
  exact absurd (hl.symm.trans hother) (by decide)

end LeaseLog
