import LeaseLog.CommandLine.Launch
import LeaseLog.Proofs.Json.Prefixes
import LeaseLog.Proofs.State.Marks
import LeaseLog.Proofs.State.Rebuilt

/-!
# Journals in a working directory

What a run finds in its journal, and what the run after it finds there once it wrote a log, or began
to write one and failed.

Results:
1. `loadLog_spec`: the log in a journal is a reachable state whose sources can be printed.
2. `read_write`: a file that was written holds the text that was written.
3. `write_error_cases`: a write that fails changes nothing, or leaves the beginning of the text.
4. `log_write_iff`, `log_write_spec`: when a written log can be opened again, and as what.
5. `log_write_error`: a journal that was not written in full cannot be opened.
-/

namespace LeaseLog.CommandLine

/-! ## Definitions -/

/-- The log in a journal, up to the point where a run would begin to work on it. -/
def loadLog (surroundings : Surroundings) (path : String) : Except RunError LogState :=
  match loadJournal surroundings path with
  | .error cause => .error cause
  | .ok sources =>
    match LogState.replay sources Invariant.standard with
    | .error cause => .error (.replay cause)
    | .ok state => .ok state

/-- The log that a run in a directory finds in a journal. -/
def Workspace.log (workspace : Workspace) (path : String) : Except RunError LogState :=
  loadLog ⟨workspace.read, default, default, 0⟩ path

/-! ## 1. Opening a journal -/

theorem fromUTF8?_toUTF8 (text : String) : String.fromUTF8? text.toUTF8 = some text :=
  dif_pos text.isValidUTF8

section

variable {workspace : Workspace} {path text : String} {state : LogState}

theorem log_of_missing (h : workspace.read path = .missing) : workspace.log path = .ok .empty := by
  simp only [Workspace.log, loadLog, loadJournal, h]
  rfl

theorem log_of_text (h : workspace.read path = .bytes text.toUTF8) :
    workspace.log path =
      match Journal.ofText text with
      | .error cause => .error (.journalMalformed cause)
      | .ok sources =>
        match LogState.replay sources Invariant.standard with
        | .error cause => .error (.replay cause)
        | .ok state => .ok state := by
  simp only [Workspace.log, loadLog, loadJournal, h, fromUTF8?_toUTF8]
  cases Journal.ofText text <;> rfl

/-- The log in a journal is a reachable state. Its sources were read, so they can be printed, and no
payload in them nests too deep. -/
theorem loadLog_spec {surroundings : Surroundings} (h : loadLog surroundings path = .ok state) :
    state.Reachable ∧ ∀ source ∈ state.sources, source.Printable ∧ source.Fits := by
  have hreplayed : ∀ {sources : List Source},
      LogState.replay sources Invariant.standard = .ok state →
      (∀ source ∈ sources, source.Printable ∧ source.Fits) →
      state.Reachable ∧ ∀ source ∈ state.sources, source.Printable ∧ source.Fits := by
    intro sources hr hs
    exact ⟨ReplayLemmas.reachable_of_replay hr, (ReplayLemmas.sources_of_replay hr).symm ▸ hs⟩
  rw [loadLog, loadJournal] at h
  cases hread : surroundings.read path with
  | missing =>
    simp only [hread] at h
    cases h
    exact @hreplayed [] rfl (by simp)
  | unreadable =>
    simp only [hread] at h
    cases h
  | bytes content =>
    simp only [hread] at h
    cases htext : String.fromUTF8? content with
    | none =>
      simp only [htext] at h
      cases h
    | some text =>
      simp only [htext] at h
      cases hof : Journal.ofText text with
      | error cause =>
        simp only [hof] at h
        cases h
      | ok sources =>
        simp only [hof] at h
        cases hr : LogState.replay sources Invariant.standard with
        | error cause =>
          simp only [hr] at h
          cases h
        | ok found =>
          simp only [hr] at h
          cases h
          exact hreplayed hr (Journal.ofText_spec hof)

theorem log_spec (h : workspace.log path = .ok state) :
    state.Reachable ∧ ∀ source ∈ state.sources, source.Printable ∧ source.Fits :=
  loadLog_spec h

end

/-! ## 2. Files that are written -/

namespace JournalsLemmas

/-- Bytes that break off are the text of a beginning, if they are the text of anything. -/
theorem exists_rest {text beginning : String} {room : Nat} (hroom : room < text.utf8ByteSize)
    (h : String.fromUTF8? (text.toUTF8.extract 0 room) = some beginning) :
    ∃ rest, text = beginning ++ rest ∧ rest ≠ "" := by
  unfold String.fromUTF8? at h
  split at h
  · rename_i hvalid
    obtain ⟨first, rest, htext, hpos⟩ := String.Pos.Raw.isValid_iff_exists_append.mp
      (String.Pos.Raw.isValid_iff_isValidUTF8_extract_zero.mpr
        ⟨show (⟨room⟩ : String.Pos.Raw) ≤ text.rawEndPos from Nat.le_of_lt hroom, hvalid⟩)
    have hlength : room = first.utf8ByteSize := congrArg String.Pos.Raw.byteIdx hpos
    have hfirst : first = beginning := by
      rw [← String.toByteArray_inj, ← Option.some.inj h]
      subst htext hlength
      exact (ByteArray.extract_append_eq_left first.size_toByteArray).symm
    refine ⟨rest, hfirst ▸ htext, ?_⟩
    rintro rfl
    rw [htext, String.append_empty, ← hlength] at hroom
    exact absurd hroom (Nat.lt_irrefl _)
  · cases h

variable {workspace : Workspace} {place other : Location} {content : ByteArray}

theorem not_directory (h : workspace.isWritable place = true) :
    ¬ place <:+ workspace.working := by
  intro hway
  simp [Workspace.isWritable, Workspace.node?, hway] at h

theorem node?_put (h : workspace.isWritable place = true) (content : ByteArray)
    (other : Location) :
    (workspace.put place content).node? other =
      if other = place then some (.file content) else workspace.node? other := by
  have hplace := not_directory h
  by_cases ho : other = place
  · simp [Workspace.node?, Workspace.put, ho, hplace]
  · simp [Workspace.node?, Workspace.put, ho]

theorem node?_put_of_ne (h : workspace.isWritable place = true) (hne : other ≠ place) :
    (workspace.put place content).node? other = workspace.node? other := by
  rw [node?_put h, if_neg hne]

theorem isWritable_put (h : workspace.isWritable place = true) (content : ByteArray) :
    (workspace.put place content).isWritable place = true := by
  rw [Workspace.isWritable, node?_put h, if_pos rfl]

theorem follow_of_isWritable (h : workspace.isWritable place = true) (links : Nat) :
    workspace.follow links place = some (links, place) := by
  unfold Workspace.isWritable at h
  cases links <;> rw [Workspace.follow] <;> split at h <;> simp_all

theorem isDirectory_of_isWritable (h : workspace.isWritable place = true) :
    workspace.isDirectory place = false := by
  unfold Workspace.isWritable at h
  rw [Workspace.isDirectory]
  split at h <;> simp_all

theorem follow_put (h : workspace.isWritable place = true) (content : ByteArray) (links : Nat)
    (start : Location) :
    (workspace.put place content).follow links start = workspace.follow links start := by
  induction links generalizing start with
  | zero =>
    by_cases hs : start = place
    · rw [hs, follow_of_isWritable (isWritable_put h content), follow_of_isWritable h]
    · rw [Workspace.follow, Workspace.follow, node?_put_of_ne h hs]
  | succ links ih =>
    by_cases hs : start = place
    · rw [hs, follow_of_isWritable (isWritable_put h content), follow_of_isWritable h]
    · rw [Workspace.follow, Workspace.follow, node?_put_of_ne h hs]
      simp only [ih]

theorem isDirectory_put (h : workspace.isWritable place = true) (content : ByteArray)
    (other : Location) :
    (workspace.put place content).isDirectory other = workspace.isDirectory other := by
  by_cases ho : other = place
  · rw [ho, isDirectory_of_isWritable (isWritable_put h content), isDirectory_of_isWritable h]
  · rw [Workspace.isDirectory, Workspace.isDirectory, node?_put_of_ne h ho]

/-- A file that is put somewhere changes no way. -/
theorem walk_put (h : workspace.isWritable place = true) (content : ByteArray) (links : Nat)
    (current : Location) (parts : List String) :
    (workspace.put place content).walk links current parts = workspace.walk links current parts := by
  induction parts generalizing links current with
  | nil => rfl
  | cons name rest ih =>
    simp only [Workspace.walk, follow_put h, isDirectory_put h, ih]

theorem locate_put (h : workspace.isWritable place = true) (content : ByteArray) (path : String) :
    (workspace.put place content).locate path = workspace.locate path := by
  rw [Workspace.locate, Workspace.locate, walk_put h]
  rfl

theorem read_put {path : String} (hpath : workspace.locate path = some place)
    (h : workspace.isWritable place = true) (content : ByteArray) :
    (workspace.put place content).read path = .bytes content := by
  rw [Workspace.read, locate_put h, hpath]
  dsimp only
  rw [node?_put h, if_pos rfl]

end JournalsLemmas

open JournalsLemmas

section

variable {workspace after : Workspace} {disk : Disk} {path text : String} {state : LogState}

/-- A write that succeeds puts the text where the path leads. -/
theorem put_of_write (h : workspace.write disk path text = .ok after) :
    ∃ place, workspace.locate path = some place ∧ workspace.isWritable place = true ∧
      after = workspace.put place text.toUTF8 := by
  unfold Workspace.write at h
  split at h
  · cases h
  · rename_i place hplace
    split at h
    · rename_i hwritable
      refine ⟨place, hplace, hwritable, ?_⟩
      split at h
      · exact (Except.ok.inj h).symm
      · cases h
      · split at h
        · exact (Except.ok.inj h).symm
        · cases h
    · cases h

/-- A file that was written holds the text that was written. -/
theorem read_write (h : workspace.write disk path text = .ok after) :
    after.read path = .bytes text.toUTF8 := by
  obtain ⟨place, hplace, hwritable, rfl⟩ := put_of_write h
  exact read_put hplace hwritable _

/-- A file that was written can be written again. -/
theorem write_again (h : workspace.write disk path text = .ok after) (again : String) :
    ∃ last, after.write .free path again = .ok last := by
  obtain ⟨place, hplace, hwritable, rfl⟩ := put_of_write h
  have hsame : (workspace.put place text.toUTF8).locate path = some place := by
    rw [locate_put hwritable, hplace]
  refine ⟨(workspace.put place text.toUTF8).put place again.toUTF8, ?_⟩
  rw [Workspace.write, hsame]
  exact if_pos (isWritable_put hwritable _)

/-- A write that fails changes nothing, or it leaves the beginning of the text. -/
theorem write_error_cases (h : workspace.write disk path text = .error after) :
    after = workspace ∨
      ∃ room < text.utf8ByteSize, after.read path = .bytes (text.toUTF8.extract 0 room) := by
  unfold Workspace.write at h
  split at h
  · cases h
    exact .inl rfl
  · rename_i place hplace
    split at h
    · rename_i hwritable
      split at h
      · cases h
      · cases h
        exact .inl rfl
      · rename_i room
        split at h
        · cases h
        · rename_i hroom
          cases h
          exact .inr ⟨room, Nat.lt_of_not_le hroom, read_put hplace hwritable _⟩
    · cases h
      exact .inl rfl

end

/-! ## 3. Opening a journal again -/

section

variable {workspace after : Workspace} {disk : Disk} {path : String} {state state' : LogState}

theorem keepsMarks_reread : KeepsMarks Message.reread :=
  ⟨fun _ => rfl, fun _ => rfl, fun _ => rfl⟩

theorem replay_reread (h : state.Reachable) :
    ∃ reopened, LogState.replay (state.sources.map Source.reread) Invariant.standard =
      .ok reopened :=
  (replay_map keepsMarks_reread fun _ => rfl).mpr ⟨state, replay_of_reachable h⟩

/-- What is found in a journal that a log was written to. -/
theorem log_write
    (hwrite : workspace.write disk path (Journal.toText state.sources) = .ok after)
    (hp : ∀ source ∈ state.sources, source.Printable) :
    after.log path =
      if ∀ source ∈ state.sources, source.Fits then
        match LogState.replay (state.sources.map Source.reread) Invariant.standard with
        | .error cause => .error (.replay cause)
        | .ok reopened => .ok reopened
      else .error (.journalMalformed .malformed) := by
  rw [log_of_text (read_write hwrite), Journal.ofText_toText hp]
  by_cases hf : ∀ source ∈ state.sources, source.Fits
  · rw [if_pos hf, if_pos hf]
  · rw [if_neg hf, if_neg hf]

/-- A log that was written can be opened again if and only if no payload in it nests too deep. -/
theorem log_write_iff (hs : state.Reachable)
    (hwrite : workspace.write disk path (Journal.toText state.sources) = .ok after)
    (hp : ∀ source ∈ state.sources, source.Printable) :
    (∃ reopened, after.log path = .ok reopened) ↔ ∀ source ∈ state.sources, source.Fits := by
  rw [log_write hwrite hp]
  by_cases hf : ∀ source ∈ state.sources, source.Fits
  · obtain ⟨reopened, hr⟩ := replay_reread hs
    rw [if_pos hf, hr]
    exact iff_of_true ⟨reopened, rfl⟩ hf
  · rw [if_neg hf]
    refine iff_of_false ?_ hf
    rintro ⟨reopened, h⟩
    cases h

/-- A log that was written and opened again has the same sources, up to what printing makes of
floating point numbers, and the same versions and holders. -/
theorem log_write_spec (hs : state.Reachable)
    (hwrite : workspace.write disk path (Journal.toText state.sources) = .ok after)
    (hp : ∀ source ∈ state.sources, source.Printable) (h : after.log path = .ok state') :
    state'.sources = state.sources.map Source.reread ∧ state'.SameMarks state := by
  rw [log_write hwrite hp] at h
  obtain ⟨reopened, hr⟩ := replay_reread hs
  split at h
  · rw [hr] at h
    cases h
    exact ⟨ReplayLemmas.sources_of_replay hr,
      sameMarks_of_replay keepsMarks_reread (fun _ => rfl) (replay_of_reachable hs) hr⟩
  · cases h

/-- A journal that was not written in full is what it was before, or it cannot be opened. -/
theorem log_write_error {sources : List Source}
    (hwrite : workspace.write disk path (Journal.toText sources) = .error after)
    (hp : ∀ source ∈ sources, source.Printable) (h : after.log path = .ok state) :
    after = workspace := by
  refine (write_error_cases hwrite).resolve_right ?_
  rintro ⟨room, hroom, hread⟩
  cases hbytes : String.fromUTF8? ((Journal.toText sources).toUTF8.extract 0 room) with
  | none =>
    rw [Workspace.log, loadLog, loadJournal] at h
    simp only [hread, hbytes] at h
    cases h
  | some beginning =>
    obtain ⟨rest, htext, hrest⟩ := exists_rest hroom hbytes
    rw [Workspace.log, loadLog, loadJournal] at h
    simp only [hread, hbytes] at h
    cases hfound : Journal.ofText beginning with
    | error cause =>
      rw [hfound] at h
      cases h
    | ok found => exact absurd hfound (Journal.ofText_beginning hp htext hrest)

end

end LeaseLog.CommandLine
