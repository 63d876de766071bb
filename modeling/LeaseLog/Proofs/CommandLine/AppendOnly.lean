import LeaseLog.Proofs.CommandLine.Reports
import LeaseLog.Proofs.Stream.ExactlyOnce

/-!
# Journals only grow

Runs that use one journal add sources to it one at a time, at its end. As every run reads the journal
anew, this includes that what was read is what was written, and that a message key is found again
which an earlier run has committed.

A run prints what it did after it has written the journal. So a run that adds a source says so if it
can print at all; otherwise it fails, and the source is there.

Results:
1. `taken_of_posting`: a committed posting keeps its message key from being taken twice.
2. `history_log`: what holds of the journal after any number of runs.
3. `journal_append_only`: what one more run does to the journal, and that no message key is in it
   twice.
4. `failed_append_grows`: a run that fails and adds a source.
-/

namespace LeaseLog.CommandLine

/-! ## Definitions -/

/-- If the run gets to use a journal, it is this one. -/
def Launch.Uses (launch : Launch) (path : String) : Prop :=
  ∀ invocation, readArguments launch.arguments = .ok invocation → invocation.journal = path

/-- If the run gets to append a payload, all numbers of the payload are integers. -/
def Launch.Integral (launch : Launch) : Prop :=
  ∀ invocation key dataType data messageKey resolution payload,
    readArguments launch.arguments = .ok invocation →
    invocation.command = .append key dataType data messageKey resolution →
    Decoder.ofText Decoder.payload data = .ok payload → payload.Integral

/-- The directories that runs lead to which use one journal. At first there is no journal, and after
every run it can be opened. -/
inductive Workspace.History (path : String) : Workspace → Prop
  | start {workspace : Workspace} : workspace.read path = .missing → History path workspace
  | run {workspace : Workspace} {launch : Launch} {state : LogState} : History path workspace →
      launch.Uses path → launch.Integral → (workspace.launch launch).2.log path = .ok state →
      History path (workspace.launch launch).2

/-- A log that runs may have written. -/
structure Grown (state : LogState) : Prop where
  integral : ∀ source ∈ state.sources, source.Integral
  taken : TakenOnce state

/-- The run comes to the report that it staged a message and committed it. -/
def Ending.Appends (ending : Ending) : Prop :=
  ∃ report, ending.Reaches report ∧ report.staged = true ∧ report.committed = true

/-! ## 1. One posting -/

namespace AppendOnlyLemmas

variable {posting : Posting} {state final : LogState} {stream : Stream} {version : Version}
  {report : AppendReport} {launch : Launch} {path : String}

open ReportsLemmas RunsLemmas

/-- A keyed lease that a posting takes was vacant. -/
theorem vacant_of_posting (hd : ¬ posting.Duplicate state) {lease : Lease}
    (hl : lease ∈ (posting.message stream version).addLeases) (hscope : lease.scope = keyedScope) :
    state.leaseHolder lease = none := by
  rcases mem_addLeases_message.mp hl with rfl | hkey
  · exact absurd hscope (by simp [streamLease, keyedScope])
  · refine Option.not_isSome_iff_eq_none.mp fun hs => hd ⟨lease, hkey, hs⟩

/-- A posting that is committed keeps its message key from being taken twice. -/
theorem taken_of_posting (ht : TakenOnce state) (hd : ¬ posting.Duplicate state)
    (ha : state.apply (posting.source stream version) Invariant.standard = .ok final) :
    TakenOnce final := by
  have hmessages : final.messages = state.messages ++ [posting.message stream version] :=
    messages_of_apply ha
  constructor
  · intro lease hscope
    rw [hmessages, takes_append]
    by_cases hl : lease ∈ (posting.message stream version).addLeases
    · have hzero : takes lease state.messages = 0 := by
        refine takes_eq_zero.mpr fun message hm hadd => ?_
        have hheld := ht.held message hm lease hadd hscope
        rw [vacant_of_posting hd hl hscope] at hheld
        cases hheld
      rw [hzero, Nat.zero_add]
      exact takes_singleton_le
    · have hzero : takes lease [posting.message stream version] = 0 :=
        takes_eq_zero.mpr (List.forall_mem_singleton.mpr hl)
      rw [hzero]
      exact ht.once lease hscope
  · rw [hmessages, List.forall_mem_append, List.forall_mem_singleton]
    refine ⟨fun message hm lease hadd hscope => ?_, fun lease hadd _ => ?_⟩
    · exact (leaseHolder_of_kept ha (keeps_source lease) (ht.held message hm lease hadd hscope)).1
    · exact leaseHolder_of_added ha (keeps_source lease) mem_source hadd

/-- What runs may have written stays so when a posting is committed. -/
theorem grown_of_commits (hg : Grown state) (hposts : launch.Posts path posting)
    (hi : posting.delta.data.Integral) (h : posting.Commits state report final) : Grown final := by
  cases h with
  | nothing => exact hg
  | message _ hd _ ha =>
    refine ⟨?_, taken_of_posting hg.taken hd ha⟩
    rw [sources_of_apply ha, List.forall_mem_append, List.forall_mem_singleton]
    exact ⟨hg.integral, integral_source hposts hi⟩

theorem integral_posts (hposts : launch.Posts path posting) (hi : launch.Integral) :
    posting.delta.data.Integral := by
  obtain ⟨invocation, dataType, data, harguments, -, hcommand, hdata⟩ := hposts.asked
  exact hi _ _ _ _ _ _ _ harguments hcommand hdata

theorem path_of_posts (hposts : launch.Posts path posting) {other : String}
    (hu : launch.Uses other) : path = other := by
  obtain ⟨invocation, dataType, data, harguments, hpath, -⟩ := hposts.asked
  rw [← hpath]
  exact hu invocation harguments

end AppendOnlyLemmas

open AppendOnlyLemmas

/-! ## 2. Any number of runs -/

section

variable {workspace after : Workspace} {launch : Launch} {path : String} {posting : Posting}
  {state final reopened : LogState} {report : AppendReport}

theorem grown_empty : Grown .empty := by
  refine ⟨by simp [LogState.empty], ⟨fun lease _ => ?_, ?_⟩⟩ <;>
    simp [LogState.messages, LogState.empty, takes]

/-- A commit that could not be written leaves the files as they are, if the journal can be opened
afterwards. -/
theorem same_of_spoiled (hposts : launch.Posts path posting) (hlog : workspace.log path = .ok state)
    (hcommits : posting.Commits state report final) {disk : Disk}
    (hwrite : workspace.write disk path (Journal.toText final.sources) = .error after)
    (hopen : after.log path = .ok reopened) : after = workspace :=
  log_write_error hwrite (RunsLemmas.commits_spec hposts hlog hcommits).2.1 hopen

/-- After any number of runs the journal can be opened, and holds a log that runs may have
written. -/
theorem history_log (h : workspace.History path) :
    ∃ state, workspace.log path = .ok state ∧ Grown state := by
  induction h with
  | start hread => exact ⟨.empty, log_of_missing hread, grown_empty⟩
  | @run workspace launch reopened _ hu hi hopen ih =>
    obtain ⟨state, hlog, hg⟩ := ih
    refine ⟨reopened, hopen, ?_⟩
    have hsame : (workspace.launch launch).2 = workspace → Grown reopened := by
      intro hsame
      rw [hsame] at hopen
      cases hlog.symm.trans hopen
      exact hg
    rcases launch_cases workspace launch with ⟨-, hrest⟩ | ⟨other, posting, found, final, report,
      hposts, hlog', hcommits, hturn⟩
    · exact hsame hrest
    · obtain rfl := path_of_posts hposts hu
      cases hlog.symm.trans hlog'
      rcases hturn with ⟨hwrite, -⟩ | ⟨hwrite, -⟩
      · exact hsame (same_of_spoiled hposts hlog hcommits hwrite hopen)
      · have hfinal := grown_of_commits hg hposts (integral_posts hposts hi) hcommits
        rwa [commit_reopened_same hposts hlog hcommits hwrite hfinal.integral hopen]

/-! ## 3. One more run -/

/-- A journal only grows, and repeated appends are found out. After any number of runs that use one
journal, a further run adds exactly one source with exactly one message to its end and comes to a
report of the state of that message; or it does not come to the report of an appended message and
leaves the sources, or the absence of a journal, as they were. A run that adds a source prints its
report and succeeds, unless standard output takes nothing: then it fails in printing. At most one
message in the journal has a message key. -/
theorem journal_append_only (h : workspace.History path) (hu : launch.Uses path)
    (hi : launch.Integral) (hopen : (workspace.launch launch).2.log path = .ok reopened) :
    ∃ state, workspace.log path = .ok state ∧
      ((∃ report source message,
          (launch.outlets.printable = true →
            (workspace.launch launch).1.Reports report ∧
              (workspace.launch launch).1.exitCode = 0) ∧
          (launch.outlets.printable = false →
            (workspace.launch launch).1.Reaches report ∧
              (workspace.launch launch).1.exitCode = 101) ∧
          report.staged = true ∧ report.committed = true ∧
          reopened.sources = state.sources ++ [source] ∧ source.messages = [message] ∧
          message.state = ⟨report.streamId, report.version⟩) ∨
        (¬ (workspace.launch launch).1.Appends ∧ reopened.sources = state.sources ∧
          ((workspace.launch launch).2.read path = .missing ↔
            workspace.read path = .missing))) ∧
      ∀ key messageKey, takes (messageLease key messageKey) reopened.messages ≤ 1 := by
  obtain ⟨state, hlog, hg⟩ := history_log h
  obtain ⟨found, hfound, hgrown⟩ := history_log (.run h hu hi hopen)
  cases hopen.symm.trans hfound
  refine ⟨state, hlog, ?_, fun key messageKey => hgrown.taken.once _ rfl⟩
  have hsame : (workspace.launch launch).2 = workspace →
      reopened.sources = state.sources ∧ ((workspace.launch launch).2.read path = .missing ↔
        workspace.read path = .missing) := by
    intro hsame
    rw [hsame] at hopen ⊢
    cases hlog.symm.trans hopen
    exact ⟨rfl, Iff.rfl⟩
  rcases launch_cases workspace launch with ⟨hn, hrest⟩ | ⟨other, posting, found, final, printed,
    hposts, hlog', hcommits, hturn⟩
  · refine .inr ⟨?_, hsame hrest⟩
    rintro ⟨report, hreaches, -, hcommitted⟩
    rw [hn report hreaches] at hcommitted
    cases hcommitted
  · obtain rfl := path_of_posts hposts hu
    cases hlog.symm.trans hlog'
    rcases hturn with ⟨hwrite, hfailed⟩ | ⟨hwrite, hprinted⟩
    · refine .inr ⟨?_, hsame (same_of_spoiled hposts hlog hcommits hwrite hopen)⟩
      rintro ⟨report, ⟨saved, he⟩, -⟩
      rw [hfailed] at he
      cases he <;> contradiction
    · have hfinal := grown_of_commits hg hposts (integral_posts hposts hi) hcommits
      obtain rfl := commit_reopened_same hposts hlog hcommits hwrite hfinal.integral hopen
      have hread := read_write hwrite
      rw [hprinted]
      cases hcommits with
      | nothing _ hd =>
        refine .inr ⟨?_, rfl, ?_⟩
        · rintro ⟨report, hreaches, hstaged, -⟩
          rw [← AppendReport.toJson_inj (reaches_print.mp hreaches)] at hstaged
          cases hstaged
        · -- somebody holds the lease of the message key, so the log is not empty
          obtain ⟨lease, -, hheld⟩ := hd
          refine iff_of_false (by rw [hread]; nofun) fun hmissing => ?_
          cases hlog.symm.trans (log_of_missing hmissing)
          simp [LogState.leaseHolder, LogState.empty] at hheld
      | @message stream version _ _ _ _ ha =>
        exact .inl ⟨_, posting.source stream version, posting.message stream version,
          fun hp => ⟨reports_print.mpr ⟨hp, rfl⟩, exitCode_print.trans (if_pos hp)⟩,
          fun hp => ⟨reaches_print.mpr rfl, exitCode_print.trans (if_neg (by simp [hp]))⟩,
          rfl, rfl, sources_of_apply ha, rfl, ReportsLemmas.state_message⟩

end

/-- The append with a message key once more. -/
def exRepeated : Launch := exAppend "[]" ["--message-key", "first"] 3 4

namespace AppendOnlyLemmas

open RunsLemmas ReportsLemmas

variable {launch : Launch} {data : String} {payload : Json} {messageKey : Option String}
  {resolution : Resolution}

theorem uses_ex (harguments : readArguments launch.arguments =
      .ok (exInvocation data messageKey resolution)) : launch.Uses "journal.json" := by
  intro invocation h
  cases harguments.symm.trans h
  rfl

theorem integral_ex (harguments : readArguments launch.arguments =
      .ok (exInvocation data messageKey resolution))
    (hdata : Decoder.ofText Decoder.payload data = .ok payload) (hi : payload.Integral) :
    launch.Integral := by
  intro invocation key dataType data' messageKey' resolution' payload' h hcommand hdata'
  cases harguments.symm.trans h
  cases hcommand
  cases hdata.symm.trans hdata'
  exact hi

theorem readArguments_repeated : readArguments exRepeated.arguments =
    .ok (exInvocation "[]" (some "first") .loadOrCreate) := by rfl

end AppendOnlyLemmas

open AppendOnlyLemmas ReportsLemmas RunsLemmas in
/-- The first append adds a source to a journal that was not there. The same append once more finds
its message key and adds nothing. -/
theorem journal_append_only_repeated :
    (exEmpty.launch exKeyed).2.History "journal.json" ∧
    (exEmpty.launch exKeyed).1.Appends ∧ exLog.sources = [exSource] ∧
    ¬ ((exEmpty.launch exKeyed).2.launch exRepeated).1.Appends ∧
    ((exEmpty.launch exKeyed).2.launch exRepeated).2.log "journal.json" = .ok exLog ∧
    takes (messageLease "orders" "first") exLog.messages = 1 := by
  obtain ⟨-, hopen, hfile⟩ := launch_keyed
  have hdata : Decoder.ofText Decoder.payload "[]" = .ok (.array []) := by rfl
  have hstart : exEmpty.History "journal.json" := .start read_ex
  have hhistory : (exEmpty.launch exKeyed).2.History "journal.json" :=
    .run hstart (uses_ex readArguments_keyed) (integral_ex readArguments_keyed hdata trivial) hopen
  obtain ⟨hagain, hreopen, -⟩ := @reopened_ex (exEmpty.launch exKeyed).2 exRepeated _ _ _ _ _ _
    ⟨.ofNat 1, false, false, true, exVersion⟩ (.commit exSource .empty) integral_exLog
    (by decide) readArguments_repeated hdata hopen rfl hfile rfl
  obtain ⟨state, hstate, hrun, honce⟩ := journal_append_only hhistory
    (uses_ex readArguments_repeated) (integral_ex readArguments_repeated hdata trivial) hreopen
  have hsilent : ¬ ((exEmpty.launch exKeyed).2.launch exRepeated).1.Appends := by
    rcases hrun with ⟨report, -, -, hprints, -, hstaged, -⟩ | ⟨hn, -⟩
    · obtain ⟨hreports, -⟩ := hprints rfl
      rw [hagain, reports_print] at hreports
      rw [← AppendReport.toJson_inj hreports.2] at hstaged
      cases hstaged
    · exact hn
  exact ⟨hhistory, ⟨exReport, reports_keyed.reaches, rfl, rfl⟩, rfl, hsilent, hreopen,
    Nat.le_antisymm (honce "orders" "first") (by decide)⟩

/-- The first append, when standard output takes nothing. -/
def exUnprinted : Launch := { exKeyed with outlets := ⟨.free, false⟩ }

open AppendOnlyLemmas ReportsLemmas RunsLemmas in
/-- A run may fail and add a source all the same: the journal is written before the result is
printed. -/
theorem failed_append_grows :
    exEmpty.History "journal.json" ∧ exUnprinted.Uses "journal.json" ∧ exUnprinted.Integral ∧
    exEmpty.read "journal.json" = .missing ∧
    (exEmpty.launch exUnprinted).1.exitCode = 101 ∧
    (∀ report, ¬ (exEmpty.launch exUnprinted).1.Reports report) ∧
    (exEmpty.launch exUnprinted).2.log "journal.json" = .ok exLog ∧
    exLog.sources = [exSource] := by
  have hdata : Decoder.ofText Decoder.payload "[]" = .ok (.array []) := by rfl
  have harguments : readArguments exUnprinted.arguments =
      .ok (exInvocation "[]" (some "first") .loadOrCreate) := readArguments_keyed
  obtain ⟨hending, hopen, -⟩ := @reopened_ex exEmpty exUnprinted _ _ _ _ _ _ exReport
    (.commit exSource .empty) integral_exLog (by decide) harguments hdata (log_of_missing read_ex)
    rfl write_ex rfl
  refine ⟨.start read_ex, uses_ex harguments, integral_ex harguments hdata trivial, read_ex,
    by rw [hending]; rfl, fun report hreports => ?_, hopen, rfl⟩
  rw [hending, reports_print] at hreports
  cases hreports.1

end LeaseLog.CommandLine
