import Mathlib.Data.List.Induction
import Mathlib.Data.List.Nodup

/-!
# First appearances

A list without its repetitions keeps every item where it appeared first. A loop that has nothing
left to do for an item that it has met before does not tell the two lists apart.

Results:
1. `firstAppearances_eraseDups`: erasing repetitions keeps the first appearances.
2. `DoneOnce.foldl_eraseDups`: a loop that does every item once runs over a list without its
   repetitions as over the whole list.
-/

namespace LeaseLog

/-! ## Definitions -/

/-- A list has the items of another one, each of them once, in the order in which they appear in
the other one first. -/
structure FirstAppearances {α : Type} [DecidableEq α] (given kept : List α) : Prop where
  mem : ∀ item, item ∈ kept ↔ item ∈ given
  nodup : kept.Nodup
  order : kept.Pairwise fun a b => given.idxOf a < given.idxOf b

/-- The step of a loop does every item once: what is done for an item stays done, and then the item
changes nothing any more. -/
structure DoneOnce {α β : Type} (step : β → α → β) (done : β → α → Prop) : Prop where
  does : ∀ state item, done (step state item) item
  stays : ∀ state item other, done state item → done (step state other) item
  again : ∀ state item, done state item → step state item = state

/-! ## 1. Erasing repetitions -/

section

variable {α : Type} [DecidableEq α] {given kept : List α} {item : α}

theorem eraseDups_concat :
    (given ++ [item]).eraseDups =
      if item ∈ given then given.eraseDups else given.eraseDups ++ [item] := by
  rw [List.eraseDups_append]
  by_cases h : item ∈ given
  · simp [h, List.removeAll]
  · simp [h, List.removeAll, List.eraseDups_cons]

namespace FirstAppearances

theorem idxOf_concat (h : FirstAppearances given kept) {a : α} (ha : a ∈ kept) :
    (given ++ [item]).idxOf a = given.idxOf a := by
  rw [List.idxOf_append, if_pos ((h.mem a).mp ha)]

theorem order_concat (h : FirstAppearances given kept) :
    kept.Pairwise fun a b => (given ++ [item]).idxOf a < (given ++ [item]).idxOf b := by
  refine h.order.imp_of_mem fun {a b} ha hb hab => ?_
  rwa [h.idxOf_concat ha, h.idxOf_concat hb]

/-- One more appearance of an item changes nothing. -/
theorem concat_of_mem (h : FirstAppearances given kept) (hm : item ∈ given) :
    FirstAppearances (given ++ [item]) kept where
  mem other := by
    rw [h.mem, List.mem_append, List.mem_singleton]
    exact ⟨.inl, fun ho => ho.elim id fun he => he ▸ hm⟩
  nodup := h.nodup
  order := h.order_concat

/-- An item that appears for the first time comes last. -/
theorem concat_of_notMem (h : FirstAppearances given kept) (hm : item ∉ given) :
    FirstAppearances (given ++ [item]) (kept ++ [item]) where
  mem other := by rw [List.mem_append, List.mem_append, h.mem]
  nodup := by
    rw [← List.concat_eq_append]
    exact h.nodup.concat fun hk => hm ((h.mem item).mp hk)
  order := by
    refine List.pairwise_append.mpr ⟨h.order_concat, List.pairwise_singleton _ _, ?_⟩
    intro a ha b hb
    rw [List.mem_singleton.mp hb, h.idxOf_concat ha, List.idxOf_append, if_neg hm]
    have hlt : given.idxOf a < given.length :=
      List.idxOf_lt_length_of_mem ((h.mem a).mp ha)
    exact Nat.lt_of_lt_of_le hlt (Nat.le_add_left _ _)

end FirstAppearances

/-- Erasing repetitions keeps the first appearances. -/
theorem firstAppearances_eraseDups (given : List α) :
    FirstAppearances given given.eraseDups := by
  -- from the front, as it is the last item that may have appeared before
  induction given using List.reverseRecOn with
  | nil => exact ⟨fun _ => Iff.rfl, List.nodup_nil, List.Pairwise.nil⟩
  | append_singleton given item ih =>
    rw [eraseDups_concat]
    split
    · next hm => exact ih.concat_of_mem hm
    · next hm => exact ih.concat_of_notMem hm

end

/-! ## 2. Loops -/

namespace DoneOnce

variable {α β : Type} {step : β → α → β} {done : β → α → Prop} {items : List α} {item : α}

/-- After a loop every item of its list is done. -/
theorem done_foldl (h : DoneOnce step done) (hm : item ∈ items) (start : β) :
    done (items.foldl step start) item := by
  induction items using List.reverseRecOn with
  | nil => exact absurd hm List.not_mem_nil
  | append_singleton items last ih =>
    rw [List.foldl_concat]
    rcases List.mem_append.mp hm with hm | hm
    · exact h.stays _ item last (ih hm)
    · rw [List.mem_singleton.mp hm]
      exact h.does _ last

/-- A loop that does every item once does not see repetitions. -/
theorem foldl_eraseDups [DecidableEq α] (h : DoneOnce step done) (items : List α) (start : β) :
    items.eraseDups.foldl step start = items.foldl step start := by
  induction items using List.reverseRecOn with
  | nil => rfl
  | append_singleton items item ih =>
    rw [eraseDups_concat, List.foldl_concat]
    split
    · next hm => rw [ih, h.again _ item (h.done_foldl hm start)]
    · rw [List.foldl_concat, ih]

end DoneOnce

end LeaseLog
