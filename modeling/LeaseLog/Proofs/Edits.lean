import LeaseLog.Message
import LeaseLog.Proofs.FirstAppearances

/-!
# Messages from edits

A message is told edit by edit which leases it takes and releases and which tags it attaches and
drops. Each edit goes to one of four lists, and an entry that its list has already is not added
again. The plain reading writes every entry down as often as it is given.

Results:
1. `ofEdits_eq_collapse`: a message from edits is the message with all entries, collapsed.
2. `collapsed_ofEdits`: each list of a message from edits has what was given for it, once each, in
   the order of first appearance; `mem_addLeases_ofEdits`, `mem_removeLeases_ofEdits`,
   `mem_addTags_ofEdits` and `mem_removeTags_ofEdits` look an entry up among the edits.
-/

namespace LeaseLog

/-! ## Definitions -/

namespace Message

/-- What a message is told to do besides writing its state. -/
inductive Edit
  | take (lease : Lease)
  | release (lease : Lease)
  | attach (tag : Tag)
  | drop (tag : Tag)
deriving DecidableEq, Repr

namespace Edit

/-- The lease that an edit takes. -/
def taken? : Edit → Option Lease
  | take lease => some lease
  | release _ | attach _ | drop _ => none

/-- The lease that an edit releases. -/
def released? : Edit → Option Lease
  | release lease => some lease
  | take _ | attach _ | drop _ => none

/-- The tag that an edit attaches. -/
def attached? : Edit → Option Tag
  | attach tag => some tag
  | take _ | release _ | drop _ => none

/-- The tag that an edit drops. -/
def dropped? : Edit → Option Tag
  | drop tag => some tag
  | take _ | release _ | attach _ => none

variable {edit : Edit} {lease : Lease} {tag : Tag}

theorem taken?_eq_some : edit.taken? = some lease ↔ edit = take lease := by
  cases edit <;> simp [taken?]

theorem released?_eq_some : edit.released? = some lease ↔ edit = release lease := by
  cases edit <;> simp [released?]

theorem attached?_eq_some : edit.attached? = some tag ↔ edit = attach tag := by
  cases edit <;> simp [attached?]

theorem dropped?_eq_some : edit.dropped? = some tag ↔ edit = drop tag := by
  cases edit <;> simp [dropped?]

end Edit

/-- The message after one more edit. -/
def edit (message : Message) : Edit → Message
  | .take lease => message.takeLease lease
  | .release lease => message.releaseLease lease
  | .attach tag => message.attachTag tag
  | .drop tag => message.dropTag tag

/-- The message that writes a state and does what it is told, edit by edit. -/
def ofEdits (state : Pointer) (delta : Envelope) (edits : List Edit) : Message :=
  edits.foldl edit (.plain state delta)

/-- The message whose lists have every entry as often as the edits give it. -/
def verbatim (state : Pointer) (delta : Envelope) (edits : List Edit) : Message where
  state := state
  delta := delta
  addLeases := edits.filterMap Edit.taken?
  removeLeases := edits.filterMap Edit.released?
  addTags := edits.filterMap Edit.attached?
  removeTags := edits.filterMap Edit.dropped?

/-- The message without the repetitions in its lists. -/
def collapse (message : Message) : Message where
  state := message.state
  delta := message.delta
  addLeases := message.addLeases.eraseDups
  removeLeases := message.removeLeases.eraseDups
  addTags := message.addTags.eraseDups
  removeTags := message.removeTags.eraseDups

/-- A message is another one without repetitions: each of its lists has the entries of the other
one's, each of them once, in the order of their first appearance. -/
structure Collapsed (given kept : Message) : Prop where
  state : kept.state = given.state
  delta : kept.delta = given.delta
  addLeases : FirstAppearances given.addLeases kept.addLeases
  removeLeases : FirstAppearances given.removeLeases kept.removeLeases
  addTags : FirstAppearances given.addTags kept.addTags
  removeTags : FirstAppearances given.removeTags kept.removeTags

end Message

open Message

/-! ## 1. Edit by edit -/

theorem insertUnique_eraseDups {α : Type} [DecidableEq α] (items : List α) (item : α) :
    insertUnique items.eraseDups item = (items ++ [item]).eraseDups := by
  rw [eraseDups_concat, insertUnique]
  exact if_congr List.mem_eraseDups rfl rfl

section

variable (state : Pointer) (delta : Envelope) (edits : List Edit)

/-- One more edit collapses into the message as one more entry. -/
theorem edit_collapse (edit : Edit) :
    (verbatim state delta edits).collapse.edit edit =
      (verbatim state delta (edits ++ [edit])).collapse := by
  cases edit <;>
    simp [verbatim, collapse, Message.edit, takeLease, releaseLease, attachTag, dropTag,
      insertUnique_eraseDups, List.filterMap_cons, Edit.taken?, Edit.released?, Edit.attached?,
      Edit.dropped?]

/-- A message from edits is the message with all their entries, collapsed. -/
theorem ofEdits_eq_collapse :
    ofEdits state delta edits = (verbatim state delta edits).collapse := by
  induction edits using List.reverseRecOn with
  | nil => rfl
  | append_singleton edits edit ih =>
    have hstep : ofEdits state delta (edits ++ [edit]) = (ofEdits state delta edits).edit edit :=
      List.foldl_concat ..
    rw [hstep, ih, edit_collapse]

end

/-! ## 2. The lists of a message -/

theorem collapsed_collapse (message : Message) : message.Collapsed message.collapse where
  state := rfl
  delta := rfl
  addLeases := firstAppearances_eraseDups message.addLeases
  removeLeases := firstAppearances_eraseDups message.removeLeases
  addTags := firstAppearances_eraseDups message.addTags
  removeTags := firstAppearances_eraseDups message.removeTags

/-- A message from edits has the entries that are given, once each, in the order of their first
appearance. -/
theorem collapsed_ofEdits (state : Pointer) (delta : Envelope) (edits : List Edit) :
    (verbatim state delta edits).Collapsed (ofEdits state delta edits) := by
  rw [ofEdits_eq_collapse]
  exact collapsed_collapse _

example :
    (ofEdits default default
      [.take ⟨"room", "name", "red"⟩, .release ⟨"room", "name", "blue"⟩,
        .take ⟨"room", "name", "blue"⟩, .take ⟨"room", "name", "red"⟩]).addLeases =
      [⟨"room", "name", "red"⟩, ⟨"room", "name", "blue"⟩] := by decide

section

variable {state : Pointer} {delta : Envelope} {edits : List Edit} {lease : Lease} {tag : Tag}

theorem mem_addLeases_ofEdits :
    lease ∈ (ofEdits state delta edits).addLeases ↔ Edit.take lease ∈ edits := by
  rw [(collapsed_ofEdits state delta edits).addLeases.mem]
  simp [verbatim, Edit.taken?_eq_some]

theorem mem_removeLeases_ofEdits :
    lease ∈ (ofEdits state delta edits).removeLeases ↔ Edit.release lease ∈ edits := by
  rw [(collapsed_ofEdits state delta edits).removeLeases.mem]
  simp [verbatim, Edit.released?_eq_some]

theorem mem_addTags_ofEdits :
    tag ∈ (ofEdits state delta edits).addTags ↔ Edit.attach tag ∈ edits := by
  rw [(collapsed_ofEdits state delta edits).addTags.mem]
  simp [verbatim, Edit.attached?_eq_some]

theorem mem_removeTags_ofEdits :
    tag ∈ (ofEdits state delta edits).removeTags ↔ Edit.drop tag ∈ edits := by
  rw [(collapsed_ofEdits state delta edits).removeTags.mem]
  simp [verbatim, Edit.dropped?_eq_some]

end

end LeaseLog
