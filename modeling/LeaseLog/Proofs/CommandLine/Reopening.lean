import LeaseLog.Proofs.CommandLine.Runs

/-!
# Payloads that nest too deep

A committed append reports success once its journal is written. Whether the next run can open that
journal is another matter: five of the levels that a text may nest are used up by what stands around
a payload.

Results:
1. `committed_append_reopens_iff`: the journal of a committed append can be opened again if and only
   if nothing was appended to it or the payload has at most 122 levels.
2. `committed_append_unreadable`: an append may succeed and leave a journal that no run can open.
-/

namespace LeaseLog.CommandLine

/-! ## 1. Which journals can be opened again -/

section

variable {workspace : Workspace} {launch : Launch} {invocation : Invocation}
  {key dataType data : String} {messageKey : Option String} {resolution : Resolution}
  {payload : Json} {report : AppendReport}

/-- Whatever a journal held before: after an append that reports success, the next run opens the
journal if and only if nothing was appended or the payload has at most 122 levels. Otherwise the
text of the journal is refused, although the payload was read. -/
theorem committed_append_reopens_iff
    (harguments : readArguments launch.arguments = .ok invocation)
    (hcommand : invocation.command = .append key dataType data messageKey resolution)
    (hdata : Decoder.ofText Decoder.payload data = .ok payload)
    (hreport : (workspace.launch launch).1.Reports report) (hcommitted : report.committed = true) :
    payload.height ≤ Decoder.textDepth ∧
      ((∃ state, (workspace.launch launch).2.log invocation.journal = .ok state) ↔
        report.staged = false ∨ payload.height ≤ Journal.deltaDepth) ∧
      (report.staged = true → Journal.deltaDepth < payload.height →
        (workspace.launch launch).2.log invocation.journal =
          .error (.journalMalformed .malformed)) := by
  obtain ⟨path, posting, state, final, hposts, hlog, hcommits, hwrite⟩ :=
    commits_of_report hreport hcommitted
  obtain ⟨rfl, rfl, hposted⟩ := hposts.of_asked harguments hcommand
  have hpayload : posting.delta.data = payload := Except.ok.inj (hposted.symm.trans hdata)
  refine ⟨(Decoder.ofText_payload_spec hdata).height_le, ?_, ?_⟩
  · rw [commit_reopens_iff hposts hlog hcommits hwrite, hpayload]
  · intro hstaged hdeep
    exact commit_malformed hposts hlog hcommits hwrite hstaged (hpayload.symm ▸ hdeep)

end

/-! ## 2. A journal that cannot be opened again -/

namespace ReopeningLemmas

variable {data : String} {payload : Json}

theorem readArguments_ex (h : isOption data = false) :
    readArguments (exAppend data [] 1 2).arguments =
      .ok (exInvocation data none .loadOrCreate) := by
  have hstream : isOption "orders" = false := by decide
  have htype : isOption "order.placed" = false := by decide
  simp [exAppend, exInvocation, readArguments, readOptions, tokenize, h, hstream, htype,
    globalOptions, optionsOf, readCommand, anyText, fileName, give, lookup, commandOf, isGiven,
    Config.defaultName]

end ReopeningLemmas

open RunsLemmas ReopeningLemmas

/-- Brackets in brackets. -/
def exBrackets (depth : Nat) : String :=
  String.ofList (List.replicate depth '[' ++ List.replicate depth ']')

/-- Lists in lists. -/
def exNested : Nat → Json
  | 0 => .array []
  | depth + 1 => .array [exNested depth]

/-- A payload of one level can be read again. -/
theorem committed_append_reopens_iff_flat :
    (exEmpty.launch (exAppend "[]" [] 1 2)).1.Reports exReport ∧ exReport.committed = true ∧
    ∃ state, (exEmpty.launch (exAppend "[]" [] 1 2)).2.log "journal.json" = .ok state := by
  have hoption : isOption "[]" = false := by decide
  have hdata : Decoder.ofText Decoder.payload "[]" = .ok (exNested 0) := by rfl
  obtain ⟨final, after, -, -, -, hlaunch⟩ := launch_ex exReport
    (readArguments_ex hoption) hdata (log_of_missing read_ex) rfl write_ex rfl
  have hreport : (exEmpty.launch (exAppend "[]" [] 1 2)).1.Reports exReport :=
    ⟨_, by rw [hlaunch]; rfl⟩
  refine ⟨hreport, rfl, ?_⟩
  exact (committed_append_reopens_iff (readArguments_ex hoption) rfl hdata hreport rfl).2.1.mpr
    (.inr (by decide))

/-- Lists what is in a journal. -/
def exLook : Launch := { exAppend "" [] 3 4 with arguments := ["pointers"] }

/-- There is no journal, a payload of 123 levels is read, appended and committed, and the next run
fails because it cannot read the journal. -/
theorem committed_append_unreadable :
    exEmpty.read "journal.json" = .missing ∧
    Decoder.ofText Decoder.payload (exBrackets 123) = .ok (exNested 122) ∧
    (exEmpty.launch (exAppend (exBrackets 123) [] 1 2)).1.Reports exReport ∧
    exReport.committed = true ∧
    ((exEmpty.launch (exAppend (exBrackets 123) [] 1 2)).2.launch exLook).1 =
      .failed (.journalMalformed .malformed) := by
  have hoption : isOption (exBrackets 123) = false := by
    rw [isOption, exBrackets, String.toList_ofList]
    rfl
  have hdata : Decoder.ofText Decoder.payload (exBrackets 123) = .ok (exNested 122) := by
    rw [Decoder.ofText, Reading.ofText, exBrackets, String.toList_ofList]
    decide +kernel
  obtain ⟨final, after, hcommits, -, hwrite, hlaunch⟩ := launch_ex exReport
    (readArguments_ex hoption) hdata (log_of_missing read_ex) rfl write_ex rfl
  have hposts := posts_ex (readArguments_ex hoption) hdata
  have hlook : readArguments exLook.arguments =
      .ok ⟨"journal.json", none, "default", "default", .pointers none [] false⟩ := by rfl
  have hlog : after.log "journal.json" = .error (.journalMalformed .malformed) :=
    commit_malformed hposts (log_of_missing read_ex) hcommits hwrite rfl (by decide +kernel)
  refine ⟨read_ex, hdata, ⟨_, by rw [hlaunch]; rfl⟩, rfl, ?_⟩
  rw [hlaunch, launch_unopened hlook rfl hlog]

end LeaseLog.CommandLine
