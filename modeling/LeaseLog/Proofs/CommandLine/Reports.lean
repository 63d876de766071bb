import LeaseLog.Proofs.CommandLine.Runs

/-!
# What an append reports

An append prints the stream as its unit of work knows it, not as the log has it. The two agree once
the append has staged a message or has found its stream. They need not agree if it has done neither:
a stream that is started is not looked up, and with nothing staged there is nothing to be refused.

Results:
1. `commits_holds`: after a commit, the log has what is reported, unless the append started a stream
   and staged nothing.
2. `append_report_holds`: the same of the journal that the run leaves.
3. `append_report_misleads`: a stream is reported that the journal does not have.
-/

namespace LeaseLog.CommandLine

/-! ## Definitions -/

/-- What is reported of a stream is what a log says of the holder of its lease. -/
structure AppendReport.Holds (report : AppendReport) (key : String) (log : LogState) : Prop where
  holder : log.leaseHolder (streamLease key) = some report.streamId
  entity : ∃ entity, log.entity? report.streamId = some entity ∧ entity.version = report.version

/-! ## 1. Reports and logs -/

namespace ReportsLemmas

variable {posting : Posting} {state final : LogState} {stream : Stream} {version : Version}

theorem stream?_cases (h : posting.stream? state = some stream) :
    stream = .unwritten posting.key posting.fresh ∨
      ∃ pointer, state.pointerOf? (streamLease posting.key) = some pointer ∧
        stream = .found posting.key pointer := by
  unfold Posting.stream? at h
  split at h
  · exact .inl (Option.some.inj h).symm
  · exact .inl (Option.some.inj h).symm
  · rename_i pointer _ hp
    exact .inr ⟨pointer, hp, (Option.some.inj h).symm⟩
  · rename_i pointer _ hp
    exact .inr ⟨pointer, hp, (Option.some.inj h).symm⟩
  · cases h

/-- The entity that holds a lease is there, at its stored version. -/
theorem entity_of_holder (hc : state.Coherent) {lease : Lease} {id : Ident}
    (h : state.leaseHolder lease = some id) :
    ∃ entity, state.entity? id = some entity ∧ entity.version = state.versionOf id := by
  obtain ⟨entity, he, -⟩ := (hc.index lease id).mp h
  exact ⟨entity, he, by rw [LogState.versionOf, he]⟩

theorem mem_source : posting.message stream version ∈ (posting.source stream version).messages :=
  List.mem_singleton_self _

theorem state_message : (posting.message stream version).state = ⟨stream.id, version⟩ :=
  state_ofStream

theorem mem_addLeases_message {lease : Lease} :
    lease ∈ (posting.message stream version).addLeases ↔
      lease = streamLease posting.key ∨ posting.keyLease = some lease := by
  rw [Posting.message, mem_addLeases_ofStream]
  simp [Extras.none]

/-- A posting removes no lease. -/
theorem keeps_source (lease : Lease) : Keeps (posting.source stream version).messages lease := by
  refine List.forall_mem_singleton.mpr ?_
  rw [Posting.message, mem_removeLeases_ofStream]
  simp [Extras.none]

/-- The stream of an accepted posting holds its lease, and is at the version that was written. -/
theorem holds_of_apply
    (h : state.apply (posting.source stream version) Invariant.standard = .ok final) :
    final.leaseHolder (streamLease posting.key) = some stream.id ∧
      final.versionOf stream.id = version := by
  refine ⟨?_, Version.eq_of_toNat ?_⟩
  · have hadded := leaseHolder_of_added h (keeps_source _) mem_source
      (mem_addLeases_message.mpr (.inl rfl))
    rwa [state_message] at hadded
  · have hlt := versionOf_lt_of_mem h mem_source
    have hle := le_versionOf_of_mem h mem_source
    have hgrown := (versions_of_apply h stream.id).2
    have hone : ((posting.source stream version).messages.filter
        (·.state.id = stream.id)).length ≤ 1 := List.length_filter_le _ _
    simp only [state_message] at hlt hle
    omega

end ReportsLemmas

open ReportsLemmas

/-- After a commit the log has what is reported, unless a stream was started and nothing staged.
Then the log is the one from before, and the report is of a stream that was never written. -/
theorem commits_holds {posting : Posting} {state final : LogState} {report : AppendReport}
    (h : posting.Commits state report final) :
    ((report.staged = true ∨ report.isNew = false) →
      final.leaseHolder (streamLease posting.key) = some report.streamId ∧
        final.versionOf report.streamId = report.version) ∧
    (report.staged = false → report.isNew = true →
      final = state ∧ report.streamId = posting.fresh ∧ report.version = .zero) := by
  cases h with
  | @nothing stream hs _ =>
    rcases stream?_cases hs with rfl | ⟨pointer, hp, rfl⟩
    · refine ⟨fun h => ?_, fun _ _ => ⟨rfl, rfl, rfl⟩⟩
      rcases h with h | h <;> cases h
    · refine ⟨fun _ => ?_, fun _ h => by cases h⟩
      obtain ⟨id, hid, rfl⟩ := Option.map_eq_some_iff.mp hp
      exact ⟨hid, rfl⟩
  | message _ _ _ ha => exact ⟨fun _ => holds_of_apply ha, fun h => by cases h⟩

/-! ## 2. Reports and journals -/

section

variable {workspace : Workspace} {launch : Launch} {invocation : Invocation}
  {key dataType data : String} {messageKey : Option String} {resolution : Resolution}
  {report : AppendReport} {after : LogState}

/-- What a committed append prints is true of the journal that it leaves, if it staged a message or
found its stream. Otherwise it printed the identifier that it drew for a new stream, with version
zero, and the journal is the one from before, printed anew. -/
theorem append_report_holds (harguments : readArguments launch.arguments = .ok invocation)
    (hcommand : invocation.command = .append key dataType data messageKey resolution)
    (hreport : (workspace.launch launch).1.Reports report) (hcommitted : report.committed = true)
    (hopen : (workspace.launch launch).2.log invocation.journal = .ok after) :
    ((report.staged = true ∨ report.isNew = false) → report.Holds key after) ∧
    (report.staged = false → report.isNew = true →
      report.streamId = launch.fresh ∧ report.version = .zero ∧
        ∃ before, workspace.log invocation.journal = .ok before ∧
          after.sources = before.sources.map Source.reread) := by
  obtain ⟨path, posting, state, final, hposts, hlog, hcommits, hwrite⟩ :=
    commits_of_report hreport hcommitted
  obtain ⟨rfl, rfl, -⟩ := hposts.of_asked harguments hcommand
  -- the log that was written is found again up to payloads, which reports do not mention
  obtain ⟨hsources, hmarks⟩ := commit_reopened hposts hlog hcommits hwrite hopen
  obtain ⟨hholds, hmissing⟩ := commits_holds hcommits
  refine ⟨fun h => ?_, fun hs hn => ?_⟩
  · obtain ⟨hholder, hversion⟩ := hholds h
    have hholder' : after.leaseHolder (streamLease posting.key) = some report.streamId := by
      rw [hmarks.leaseHolder, hholder]
    obtain ⟨entity, he, hv⟩ :=
      entity_of_holder (coherent_of_reachable (log_spec hopen).1) hholder'
    exact ⟨hholder', entity, he, by rw [hv, hmarks.versionOf, hversion]⟩
  · obtain ⟨rfl, hfresh, hversion⟩ := hmissing hs hn
    exact ⟨hfresh.trans hposts.fresh, hversion, final, hlog, hsources⟩

end

/-- An append with a message key. -/
def exKeyed : Launch := exAppend "[]" ["--message-key", "first"] 1 2

/-- The same append once more, but of a stream that is started. -/
def exStarting : Launch := exAppend "[]" ["--message-key", "first", "--new"] 3 4

/-- What the second one reports. -/
def exUnstaged : AppendReport := ⟨.ofNat 3, true, false, true, .zero⟩

/-- The source of the first one. -/
def exSource : Source :=
  (exPosting exKeyed (.array []) (some "first") .loadOrCreate).source
    (.unwritten "orders" (.ofNat 1)) exVersion

/-- The log that it leaves. -/
def exLog : LogState := (LogState.empty.commit exSource).2

namespace ReportsLemmas

open RunsLemmas

theorem readArguments_keyed : readArguments exKeyed.arguments =
    .ok (exInvocation "[]" (some "first") .loadOrCreate) := by rfl

theorem readArguments_starting : readArguments exStarting.arguments =
    .ok (exInvocation "[]" (some "first") .create) := by rfl

theorem integral_exLog : ∀ source ∈ exLog.sources, source.Integral := by
  have hsource : exSource.Integral := integral_source (posts_ex readArguments_keyed rfl) trivial
  exact List.forall_mem_singleton.mpr hsource

/-- The first append leaves its log, and a journal that can be written again. -/
theorem launch_keyed :
    (exEmpty.launch exKeyed).1 = .printed ⟨some exLog.sources, exReport.toJson⟩ ∧
      (exEmpty.launch exKeyed).2.log "journal.json" = .ok exLog ∧
      ∀ text, ∃ last, (exEmpty.launch exKeyed).2.write .free "journal.json" text = .ok last :=
  reopened_ex exReport (.commit exSource .empty) integral_exLog (by decide) readArguments_keyed rfl
    (log_of_missing read_ex) rfl write_ex rfl

theorem reports_keyed : (exEmpty.launch exKeyed).1.Reports exReport := ⟨_, launch_keyed.1⟩

theorem launch_starting :
    ((exEmpty.launch exKeyed).2.launch exStarting).1.Reports exUnstaged ∧
      ((exEmpty.launch exKeyed).2.launch exStarting).2.log "journal.json" = .ok exLog := by
  obtain ⟨hprinted, hlog, -⟩ := reopened_ex exUnstaged (.commit exSource .empty) integral_exLog
    (by decide) readArguments_starting rfl launch_keyed.2.1 rfl launch_keyed.2.2 rfl
  exact ⟨⟨_, hprinted⟩, hlog⟩

end ReportsLemmas

/-- The first append reports the stream that its journal has. -/
theorem append_report_holds_staged :
    (exEmpty.launch exKeyed).1.Reports exReport ∧ exReport.committed = true ∧
    (exEmpty.launch exKeyed).2.log "journal.json" = .ok exLog ∧ exReport.Holds "orders" exLog := by
  have hopen := launch_keyed.2.1
  exact ⟨reports_keyed, rfl, hopen,
    (append_report_holds readArguments_keyed rfl reports_keyed rfl hopen).1 (.inl rfl)⟩

/-- The second append reports a commit of a stream that the journal does not have, while the journal
has the stream that was asked for. -/
theorem append_report_misleads :
    (exEmpty.launch exKeyed).2.log "journal.json" = .ok exLog ∧
    ((exEmpty.launch exKeyed).2.launch exStarting).1.Reports exUnstaged ∧
    exUnstaged.committed = true ∧
    ((exEmpty.launch exKeyed).2.launch exStarting).2.log "journal.json" = .ok exLog ∧
    exLog.leaseHolder (streamLease "orders") = some exReport.streamId ∧
    exLog.entity? exUnstaged.streamId = none ∧ ¬ exUnstaged.Holds "orders" exLog := by
  have hnone : exLog.entity? exUnstaged.streamId = none := by rfl
  refine ⟨launch_keyed.2.1, launch_starting.1, rfl, launch_starting.2, by rfl, hnone, fun h => ?_⟩
  obtain ⟨entity, he, -⟩ := h.entity
  rw [hnone] at he
  cases he

end LeaseLog.CommandLine
