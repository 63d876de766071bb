import LeaseLog.Proofs.CommandLine.Appends

/-!
# Runs and the journal they leave

A run either leaves all files as they are, or it is an append that is committed and sets out to write
its journal anew. Only when that is done does it print its result, and that may fail. What is written
can be printed, but a payload may nest so deep that it cannot be read back: as an argument a payload
may have 127 levels, and five of them are used up by what stands around it in a journal.

Results:
1. `turn_of_launch`, `launch_cases`: what a run does to the files, together with how it ends.
2. `commit_reopens_iff`, `commit_malformed`, `commit_reopened`: when the journal of a committed
   append can be opened again, and what is in it.
-/

namespace LeaseLog.CommandLine

/-! ## Definitions -/

/-- A run of the program: its arguments, what it draws from its surroundings, and what it writes to.
The clock shows a time that has a written form, and the number of the process has 32 bits. -/
structure Launch where
  arguments : List String
  /-- The identifier of a stream, if the run starts one. -/
  fresh : Ident
  stamp : Stamp
  processId : Nat
  outlets : Outlets
  isYear : Instant.isYear stamp.timestamp.year = true
  processId_lt : processId < Nat.pow 2 32

/-- Runs the program in a directory. -/
def Workspace.launch (workspace : Workspace) (launch : Launch) : Ending × Workspace :=
  workspace.run launch.arguments launch.fresh launch.stamp launch.processId launch.outlets

/-- The run is an append and prints a report. -/
def Ending.Reports (ending : Ending) (report : AppendReport) : Prop :=
  ∃ saved, ending = .printed ⟨saved, report.toJson⟩

/-- The run is an append and comes to a report, whether or not it can print it. -/
def Ending.Reaches (ending : Ending) (report : AppendReport) : Prop :=
  ∃ saved, ending = .printed ⟨saved, report.toJson⟩ ∨ ending = .unprinted ⟨saved, report.toJson⟩

/-- The run is asked to append a posting to a journal. Its configuration says who signs. -/
structure Launch.Posts (launch : Launch) (path : String) (posting : Posting) : Prop where
  asked : ∃ invocation dataType data, readArguments launch.arguments = .ok invocation ∧
    invocation.journal = path ∧
    invocation.command =
      .append posting.key dataType data posting.messageKey posting.resolution ∧
    Decoder.ofText Decoder.payload data = .ok posting.delta.data
  fresh : posting.fresh = launch.fresh
  stamp : posting.stamp = launch.stamp
  signed : ∃ profile : AgentProfile, posting.agent = profile.sign launch.processId

/-- A posting is committed to a log: what is reported, and the log after it. -/
inductive Posting.Commits (posting : Posting) (state : LogState) : AppendReport → LogState → Prop
  /-- The stream has the message key already. -/
  | nothing {stream : Stream} :
      posting.stream? state = some stream → posting.Duplicate state →
      Commits posting state (report stream false true stream.version) state
  | message {stream : Stream} {version : Version} {final : LogState} :
      posting.stream? state = some stream → ¬ posting.Duplicate state →
      stream.version.next = .ok version →
      state.apply (posting.source stream version) Invariant.standard = .ok final →
      Commits posting state (report stream true true version) final

/-- What a run does to the files. -/
inductive Workspace.Turn (workspace : Workspace) (launch : Launch) : Ending → Workspace → Prop
  | rest {ending : Ending} :
      (∀ report, ending.Reaches report → report.committed = false) →
      Turn workspace launch ending workspace
  /-- The journal cannot be written, or not in full. -/
  | spoil {path : String} {posting : Posting} {state final : LogState} {report : AppendReport}
      {after : Workspace} :
      launch.Posts path posting → workspace.log path = .ok state →
      posting.Commits state report final →
      workspace.write launch.outlets.disk path (Journal.toText final.sources) = .error after →
      Turn workspace launch (.failed (.journalUnwritable path)) after
  | commit {path : String} {posting : Posting} {state final : LogState} {report : AppendReport}
      {after : Workspace} :
      launch.Posts path posting → workspace.log path = .ok state →
      posting.Commits state report final →
      workspace.write launch.outlets.disk path (Journal.toText final.sources) = .ok after →
      Turn workspace launch (launch.outlets.print ⟨some final.sources, report.toJson⟩) after

/-! ## 1. What a run does -/

namespace RunsLemmas

theorem toJson_ident_inj {a b : Ident} (h : a.toJson = b.toJson) : a = b := by
  have ht : a.toText = b.toText := Json.string.inj h
  have ho := Ident.ofText?_toText a
  rw [ht, Ident.ofText?_toText] at ho
  exact (Option.some.inj ho).symm

theorem toJson_version_inj {a b : Version} (h : a.toJson = b.toJson) : a = b := by
  have hd := @Version.decoder_toJson 0 a
  rw [h, Version.decoder_toJson] at hd
  exact (Except.ok.inj hd).symm

end RunsLemmas

open RunsLemmas

/-- What is printed of an append says everything about its report. -/
theorem AppendReport.toJson_inj {a b : AppendReport} (h : a.toJson = b.toJson) : a = b := by
  simp only [AppendReport.toJson, Json.object.injEq, List.cons.injEq, Prod.mk.injEq, true_and,
    and_true, Json.bool.injEq] at h
  obtain ⟨hid, hnew, hstaged, hcommitted, hversion⟩ := h
  have hid := toJson_ident_inj hid
  have hversion := toJson_version_inj hversion
  cases a
  cases b
  simp_all

theorem Ending.Reports.reaches {ending : Ending} {report : AppendReport} (h : ending.Reports report) :
    ending.Reaches report := by
  obtain ⟨saved, he⟩ := h
  exact ⟨saved, .inl he⟩

section

variable {outlets : Outlets} {result : Result} {report : AppendReport}

theorem reports_print : (outlets.print result).Reports report ↔
    outlets.printable = true ∧ result.output = report.toJson := by
  rw [Outlets.print]
  constructor
  · rintro ⟨saved, h⟩
    split at h
    · rename_i hprintable
      exact ⟨hprintable, congrArg Result.output (Ending.printed.inj h)⟩
    · cases h
  · rintro ⟨hprintable, ho⟩
    rw [if_pos hprintable]
    exact ⟨result.saved, by rw [← ho]⟩

theorem reaches_print : (outlets.print result).Reaches report ↔ result.output = report.toJson := by
  rw [Outlets.print]
  constructor
  · rintro ⟨saved, h⟩
    split at h
    · exact congrArg Result.output (Ending.printed.inj (h.resolve_right nofun))
    · exact congrArg Result.output (Ending.unprinted.inj (h.resolve_left nofun))
  · intro ho
    refine ⟨result.saved, ?_⟩
    rw [← ho]
    split
    · exact .inl rfl
    · exact .inr rfl

theorem exitCode_print :
    (outlets.print result).exitCode = if outlets.printable then 0 else 101 := by
  rw [Outlets.print]
  split <;> rfl

end

/-- An append that does not fail is committed, or it is refused and writes nothing. -/
theorem result_cases {posting : Posting} {options : SessionOptions} {state : LogState}
    {result : Result} (h : posting.result options state = .ok result) :
    (∃ report final, posting.Commits state report final ∧
      result = ⟨some final.sources, report.toJson⟩) ∨
    ∃ report : AppendReport, report.committed = false ∧ result = ⟨none, report.toJson⟩ := by
  unfold Posting.result at h
  split at h
  · cases h
  · rename_i stream hs
    split at h
    · rename_i hd
      cases h
      exact .inl ⟨_, state, .nothing hs hd, rfl⟩
    · rename_i hd
      split at h
      · cases h
      · rename_i version hv
        split at h
        · cases h
        · split at h
          · rename_i final ha
            cases h
            exact .inl ⟨_, final, .message hs hd hv ha, rfl⟩
          · cases h
            exact .inr ⟨_, rfl, rfl⟩

/-- A run leaves all files as they are, or it is a committed append that sets out to write its
journal. -/
theorem turn_of_launch (workspace : Workspace) (launch : Launch) :
    workspace.Turn launch (workspace.launch launch).1 (workspace.launch launch).2 := by
  have hsilent : ∀ {ending : Ending}, (∀ result, ending ≠ .printed result) →
      (∀ result, ending ≠ .unprinted result) → workspace.Turn launch ending workspace := by
    intro ending hp hu
    refine .rest fun report ⟨saved, he⟩ => ?_
    exact he.elim (absurd · (hp _)) (absurd · (hu _))
  unfold Workspace.launch Workspace.run
  cases harguments : readArguments launch.arguments with
  | error stop => exact hsilent nofun nofun
  | ok invocation =>
    dsimp only
    cases hrun : CommandLine.run invocation
        ⟨workspace.read, launch.fresh, launch.stamp, launch.processId⟩ with
    | error cause => exact hsilent nofun nofun
    | ok result =>
      dsimp only
      -- of all commands only an append has something to save
      by_cases hcommand : ∃ key dataType data messageKey resolution,
          invocation.command = .append key dataType data messageKey resolution
      · obtain ⟨key, dataType, data, messageKey, resolution, hcommand⟩ := hcommand
        obtain ⟨state, payload, profile, options, hlog, hdata, hresult⟩ :=
          run_append hcommand hrun
        rcases result_cases hresult with ⟨report, final, hcommits, rfl⟩ | ⟨report, hr, rfl⟩
        · have hposts : launch.Posts invocation.journal ⟨key, resolution, launch.fresh,
              ⟨.native dataType, payload⟩, messageKey, launch.stamp,
              profile.sign launch.processId⟩ :=
            ⟨⟨invocation, dataType, data, harguments, rfl, hcommand, hdata⟩, rfl, rfl,
              ⟨profile, rfl⟩⟩
          simp only [Workspace.save]
          cases hwrite : workspace.write launch.outlets.disk invocation.journal
              (Journal.toText final.sources) with
          | error left => exact .spoil hposts hlog hcommits hwrite
          | ok after => exact .commit hposts hlog hcommits hwrite
        · refine .rest fun other ho => ?_
          rw [← AppendReport.toJson_inj (reaches_print.mp ho)]
          exact hr
      · have hlisting := run_saved (fun key dataType data messageKey resolution he =>
          hcommand ⟨key, dataType, data, messageKey, resolution, he⟩) hrun
        obtain ⟨hs, items, ho⟩ := hlisting
        rw [Workspace.save, hs]
        refine .rest fun report hreaches => ?_
        have hout := reaches_print.mp hreaches
        rw [ho] at hout
        cases hout

/-- The turn of a run as an alternative: no commit is reported and all files are as they were, or
the journal of a commit could not be written, or it is written. -/
theorem launch_cases (workspace : Workspace) (launch : Launch) :
    ((∀ report, (workspace.launch launch).1.Reaches report → report.committed = false) ∧
      (workspace.launch launch).2 = workspace) ∨
    ∃ path posting state final report, launch.Posts path posting ∧
      workspace.log path = .ok state ∧ posting.Commits state report final ∧
      ((workspace.write launch.outlets.disk path (Journal.toText final.sources) =
          .error (workspace.launch launch).2 ∧
        (workspace.launch launch).1 = .failed (.journalUnwritable path)) ∨
      (workspace.write launch.outlets.disk path (Journal.toText final.sources) =
          .ok (workspace.launch launch).2 ∧
        (workspace.launch launch).1 =
          launch.outlets.print ⟨some final.sources, report.toJson⟩)) := by
  have hturn := turn_of_launch workspace launch
  revert hturn
  generalize workspace.launch launch = ended
  obtain ⟨ending, after⟩ := ended
  intro hturn
  cases hturn with
  | rest hn => exact .inl ⟨hn, rfl⟩
  | spoil hposts hlog hcommits hwrite =>
    exact .inr ⟨_, _, _, _, _, hposts, hlog, hcommits, .inl ⟨hwrite, rfl⟩⟩
  | commit hposts hlog hcommits hwrite =>
    exact .inr ⟨_, _, _, _, _, hposts, hlog, hcommits, .inr ⟨hwrite, rfl⟩⟩

/-- A commit that is reported was made and written. -/
theorem commits_of_report {workspace : Workspace} {launch : Launch} {report : AppendReport}
    (hreport : (workspace.launch launch).1.Reports report) (hcommitted : report.committed = true) :
    ∃ path posting state final, launch.Posts path posting ∧ workspace.log path = .ok state ∧
      posting.Commits state report final ∧
      workspace.write launch.outlets.disk path (Journal.toText final.sources) =
        .ok (workspace.launch launch).2 := by
  rcases launch_cases workspace launch with ⟨hn, -⟩ | ⟨path, posting, state, final, printed, hposts,
    hlog, hcommits, ⟨-, hfailed⟩ | ⟨hwrite, hprinted⟩⟩
  · rw [hn report hreport.reaches] at hcommitted
    cases hcommitted
  · rw [hfailed] at hreport
    obtain ⟨saved, he⟩ := hreport
    cases he
  · rw [hprinted, reports_print] at hreport
    obtain rfl := AppendReport.toJson_inj hreport.2
    exact ⟨path, posting, state, final, hposts, hlog, hcommits, hwrite⟩

/-- What is posted is what the arguments ask for. -/
theorem Launch.Posts.of_asked {launch : Launch} {path : String} {posting : Posting}
    (h : launch.Posts path posting) {invocation : Invocation} {key dataType data : String}
    {messageKey : Option String} {resolution : Resolution}
    (harguments : readArguments launch.arguments = .ok invocation)
    (hcommand : invocation.command = .append key dataType data messageKey resolution) :
    invocation.journal = path ∧ key = posting.key ∧
      Decoder.ofText Decoder.payload data = .ok posting.delta.data := by
  obtain ⟨asked, dataType', data', harguments', hpath, hcommand', hdata⟩ := h.asked
  cases harguments.symm.trans harguments'
  cases hcommand.symm.trans hcommand'
  exact ⟨hpath, rfl, hdata⟩

/-- An append that gets as far as its log, and whose result can be saved, goes on to print it. -/
theorem launch_append {workspace after : Workspace} {launch : Launch} {invocation : Invocation}
    {key dataType data : String} {messageKey : Option String} {resolution : Resolution}
    {config : Config} {state : LogState} {payload : Json} {profile : AgentProfile}
    {options : SessionOptions} {result : Result}
    (harguments : readArguments launch.arguments = .ok invocation)
    (hcommand : invocation.command = .append key dataType data messageKey resolution)
    (hconfig : loadConfig ⟨workspace.read, launch.fresh, launch.stamp, launch.processId⟩
      invocation.config = .ok config)
    (hlog : workspace.log invocation.journal = .ok state)
    (hdata : Decoder.ofText Decoder.payload data = .ok payload)
    (hagent : config.agent invocation.agent = .ok profile)
    (hsession : config.session invocation.session = .ok options)
    (hresult : (⟨key, resolution, launch.fresh, ⟨.native dataType, payload⟩, messageKey,
      launch.stamp, profile.sign launch.processId⟩ : Posting).result options state = .ok result)
    (hsave : workspace.save launch.outlets.disk invocation.journal result = .ok after) :
    workspace.launch launch = (launch.outlets.print result, after) := by
  have hrun := run_append_of hcommand hconfig hlog hdata hagent hsession
  rw [hresult] at hrun
  simp only [Workspace.launch, Workspace.run, harguments, hrun, Except.mapError, hsave]

/-- A run whose journal cannot be opened fails, and leaves all files as they are. -/
theorem launch_unopened {workspace : Workspace} {launch : Launch} {invocation : Invocation}
    {config : Config} {cause : RunError}
    (harguments : readArguments launch.arguments = .ok invocation)
    (hconfig : loadConfig ⟨workspace.read, launch.fresh, launch.stamp, launch.processId⟩
      invocation.config = .ok config)
    (hlog : workspace.log invocation.journal = .error cause) :
    workspace.launch launch = (.failed cause, workspace) := by
  have hload : loadLog ⟨workspace.read, launch.fresh, launch.stamp, launch.processId⟩
      invocation.journal = .error cause := hlog
  simp only [Workspace.launch, Workspace.run, harguments, run_eq, hconfig, hload]

/-! ## 2. Opening the journal again -/

namespace RunsLemmas

variable {launch : Launch} {path : String} {posting : Posting} {state final : LogState}
  {report : AppendReport} {stream : Stream} {version : Version}

theorem storable_posts (h : launch.Posts path posting) :
    posting.delta.data.Storable Decoder.textDepth := by
  obtain ⟨invocation, dataType, data, -, -, -, hdata⟩ := h.asked
  exact Decoder.ofText_payload_spec hdata

/-- A signature can be printed and does not nest deep. -/
theorem sign_spec (profile : AgentProfile) {processId : Nat} (h : processId < Nat.pow 2 32) :
    (profile.sign processId).data.Integral ∧ (profile.sign processId).data.Sorted ∧
      (profile.sign processId).data.height ≤ 1 := by
  have hnumber : (Json.nat processId).Integral := by
    have hvalid : (Number.integer processId).Valid := by
      have hlt : processId < 2 ^ 32 := h
      refine ⟨by omega, ?_⟩
      norm_num
      omega
    exact ⟨hvalid, _, rfl⟩
  have htext : ∀ text : Option String, (Json.ofOption .string text).Integral ∧
      (Json.ofOption .string text).Sorted ∧ (Json.ofOption .string text).height ≤ 0 := by
    rintro (_ | text) <;> exact ⟨trivial, trivial, Nat.le_refl 0⟩
  have hnames : Json.SortedNames [("instance", Json.ofOption .string profile.instanceName),
      ("process_id", .nat processId), ("system", .string profile.system),
      ("user", .ofOption .string profile.user)] := by
    have horder : ["instance", "process_id", "system", "user"].Pairwise
        fun a b : String => compare a b = .lt := by decide
    exact List.Pairwise.of_map Prod.fst (fun _ _ h => h) horder
  refine ⟨⟨(htext _).1, hnumber, trivial, (htext _).1, trivial⟩,
    ⟨hnames, (htext _).2.1, trivial, trivial, (htext _).2.1, trivial⟩, ?_⟩
  refine Json.height_object_le.mpr ?_
  simp only [List.forall_mem_cons]
  exact ⟨(htext _).2.2, Nat.le_refl 0, Nat.le_refl 0, (htext _).2.2, by simp⟩

theorem delta_message : (posting.message stream version).delta = posting.delta := by
  rw [Posting.message]
  cases posting.keyLease <;> rfl

/-- The source of a posting can be printed; it fits into a journal unless the payload nests too
deep. -/
theorem source_spec (h : launch.Posts path posting) (stream : Stream) (version : Version) :
    (posting.source stream version).Printable ∧
      ((posting.source stream version).Fits ↔
        posting.delta.data.height ≤ Journal.deltaDepth) := by
  obtain ⟨profile, hagent⟩ := h.signed
  have hdelta := storable_posts h
  have hsign := sign_spec profile launch.processId_lt
  have hpayload := @delta_message posting stream version
  have hmessages : ∀ p : Message → Prop,
      (∀ message ∈ (posting.source stream version).messages, p message) ↔
        p (posting.message stream version) := fun p => List.forall_mem_singleton
  have hsigned : (posting.source stream version).agent = profile.sign launch.processId := hagent
  have hyear : Instant.isYear (posting.source stream version).timestamp.year = true := by
    have hstamp : (posting.source stream version).timestamp = launch.stamp.timestamp :=
      congrArg Stamp.timestamp h.stamp
    rw [hstamp]
    exact launch.isYear
  refine ⟨⟨hyear, ?_, ?_⟩, fun hf => ?_, fun hd => ⟨?_, ?_⟩⟩
  · rw [hsigned]
    exact ⟨hsign.1.legible, hsign.2.1⟩
  · rw [hmessages, hpayload]
    exact ⟨hdelta.legible, hdelta.sorted⟩
  · have hdeltas := (hmessages _).mp hf.deltas
    rwa [hpayload] at hdeltas
  · rw [hsigned]
    exact Nat.le_trans hsign.2.2 (by decide)
  · rwa [hmessages, hpayload]

theorem integral_source (hposts : launch.Posts path posting) (hi : posting.delta.data.Integral) :
    (posting.source stream version).Integral := by
  obtain ⟨profile, hagent⟩ := hposts.signed
  constructor
  · have hsigned : (posting.source stream version).agent = profile.sign launch.processId := hagent
    rw [hsigned]
    exact (sign_spec profile launch.processId_lt).1
  · refine List.forall_mem_singleton.mpr ?_
    rwa [delta_message]

/-- What is committed is a log again, and can be printed. -/
theorem commits_spec {workspace : Workspace} (hposts : launch.Posts path posting)
    (hlog : workspace.log path = .ok state) (hcommits : posting.Commits state report final) :
    final.Reachable ∧ (∀ source ∈ final.sources, source.Printable) ∧
      ((∀ source ∈ final.sources, source.Fits) ↔
        report.staged = false ∨ posting.delta.data.height ≤ Journal.deltaDepth) := by
  -- what was read from the journal fits, so only the source that is added decides
  obtain ⟨hr, hs⟩ := log_spec hlog
  cases hcommits with
  | nothing _ _ =>
    exact ⟨hr, fun source hm => (hs source hm).1,
      iff_of_true (fun source hm => (hs source hm).2) (.inl rfl)⟩
  | @message stream version _ _ _ _ ha =>
    have hsource := source_spec hposts stream version
    refine ⟨hr.apply ha, ?_, ?_⟩
    · rw [sources_of_apply ha, List.forall_mem_append, List.forall_mem_singleton]
      exact ⟨fun source hm => (hs source hm).1, hsource.1⟩
    · rw [sources_of_apply ha, List.forall_mem_append, List.forall_mem_singleton, hsource.2]
      exact ⟨fun h => .inr h.2,
        fun h => ⟨fun source hm => (hs source hm).2, h.resolve_left (by simp [Posting.report])⟩⟩

end RunsLemmas

section

variable {workspace after : Workspace} {launch : Launch} {disk : Disk} {path : String}
  {posting : Posting} {state final reopened : LogState} {report : AppendReport}

/-- The journal of a committed append can be opened again if and only if nothing was appended or the
payload does not nest too deep. -/
theorem commit_reopens_iff (hposts : launch.Posts path posting)
    (hlog : workspace.log path = .ok state) (hcommits : posting.Commits state report final)
    (hwrite : workspace.write disk path (Journal.toText final.sources) = .ok after) :
    (∃ reopened, after.log path = .ok reopened) ↔
      report.staged = false ∨ posting.delta.data.height ≤ Journal.deltaDepth := by
  obtain ⟨hfinal, hprintable, hfits⟩ := commits_spec hposts hlog hcommits
  rw [log_write_iff hfinal hwrite hprintable, hfits]

/-- A payload that nests too deep makes the whole journal unreadable. -/
theorem commit_malformed (hposts : launch.Posts path posting)
    (hlog : workspace.log path = .ok state) (hcommits : posting.Commits state report final)
    (hwrite : workspace.write disk path (Journal.toText final.sources) = .ok after)
    (hstaged : report.staged = true) (hdeep : Journal.deltaDepth < posting.delta.data.height) :
    after.log path = .error (.journalMalformed .malformed) := by
  obtain ⟨-, hprintable, hfits⟩ := commits_spec hposts hlog hcommits
  rw [log_write hwrite hprintable, if_neg]
  intro hf
  rcases hfits.mp hf with hn | hd
  · rw [hstaged] at hn
    cases hn
  · exact absurd hd (Nat.not_le.mpr hdeep)

/-- What the next run finds in the journal of a committed append. -/
theorem commit_reopened (hposts : launch.Posts path posting) (hlog : workspace.log path = .ok state)
    (hcommits : posting.Commits state report final)
    (hwrite : workspace.write disk path (Journal.toText final.sources) = .ok after)
    (h : after.log path = .ok reopened) :
    reopened.sources = final.sources.map Source.reread ∧ reopened.SameMarks final := by
  obtain ⟨hfinal, hprintable, -⟩ := commits_spec hposts hlog hcommits
  exact log_write_spec hfinal hwrite hprintable h

/-- A log of integers that was committed is found again as it was. -/
theorem commit_reopened_same (hposts : launch.Posts path posting)
    (hlog : workspace.log path = .ok state) (hcommits : posting.Commits state report final)
    (hwrite : workspace.write disk path (Journal.toText final.sources) = .ok after)
    (hi : ∀ source ∈ final.sources, source.Integral) (h : after.log path = .ok reopened) :
    reopened = final := by
  have hfinal := (commits_spec hposts hlog hcommits).1
  refine eq_of_sources (log_spec h).1 hfinal ?_
  rw [(commit_reopened hposts hlog hcommits hwrite h).1]
  conv_rhs => rw [← List.map_id final.sources]
  exact List.map_congr_left fun source hm => Source.reread_of_integral (hi source hm)

end

/-! ## 3. Appends to one stream -/

/-- A root directory with nothing in it. -/
def exEmpty : Workspace := ⟨[], fun _ => none⟩

/-- An append that uses the built-in configuration and the journal of the directory. -/
def exAppend (data : String) (options : List String) (fresh stamp : Nat) : Launch where
  arguments := ["append", "--stream", "orders", "--type", "order.placed", "--data", data] ++ options
  fresh := .ofNat fresh
  stamp := ⟨.ofNat stamp, .epoch⟩
  processId := 1
  outlets := ⟨.free, true⟩
  isYear := show Instant.isYear Instant.epoch.year = true by decide
  processId_lt := by decide

/-- What such an append is asked to do. -/
def exInvocation (data : String) (messageKey : Option String) (resolution : Resolution) :
    Invocation :=
  ⟨"journal.json", none, "default", "default",
    .append "orders" "order.placed" data messageKey resolution⟩

/-- What it appends. -/
def exPosting (launch : Launch) (payload : Json) (messageKey : Option String)
    (resolution : Resolution) : Posting :=
  ⟨"orders", resolution, launch.fresh, ⟨.native "order.placed", payload⟩, messageKey, launch.stamp,
    AgentProfile.sign ⟨"sourcelog-kernel", none, none⟩ launch.processId⟩

/-- The version that a first message writes. -/
def exVersion : Version := (Version.ofNat? 1).getD .zero

/-- What a first append reports. -/
def exReport : AppendReport := ⟨.ofNat 1, true, true, true, exVersion⟩

namespace RunsLemmas

variable {workspace : Workspace} {launch : Launch} {data : String} {payload : Json}
  {messageKey : Option String} {resolution : Resolution} {state : LogState}
  {sources : List Source}

theorem locate_ex : exEmpty.locate "journal.json" = some ["journal.json"] := by
  with_unfolding_all rfl

theorem read_ex : exEmpty.read "journal.json" = .missing := by
  rw [Workspace.read, locate_ex]
  rfl

theorem write_ex (text : String) : ∃ after, exEmpty.write .free "journal.json" text = .ok after := by
  rw [Workspace.write, locate_ex]
  exact ⟨_, rfl⟩

theorem posts_ex (harguments : readArguments launch.arguments =
      .ok (exInvocation data messageKey resolution))
    (hdata : Decoder.ofText Decoder.payload data = .ok payload) :
    launch.Posts "journal.json" (exPosting launch payload messageKey resolution) :=
  ⟨⟨_, _, _, harguments, rfl, rfl, hdata⟩, rfl, rfl, ⟨_, rfl⟩⟩

/-- Such an append is committed if the log says so. -/
theorem launch_ex (report : AppendReport)
    (harguments : readArguments launch.arguments =
      .ok (exInvocation data messageKey resolution))
    (hdata : Decoder.ofText Decoder.payload data = .ok payload)
    (hlog : workspace.log "journal.json" = .ok state) (hdisk : launch.outlets.disk = .free)
    (hfile : ∀ text, ∃ after, workspace.write .free "journal.json" text = .ok after)
    (hresult : (exPosting launch payload messageKey resolution).result .writer state =
      .ok ⟨some sources, report.toJson⟩) :
    ∃ final after, (exPosting launch payload messageKey resolution).Commits state report final ∧
      final.sources = sources ∧
      workspace.write .free "journal.json" (Journal.toText final.sources) = .ok after ∧
      workspace.launch launch =
        (launch.outlets.print ⟨some final.sources, report.toJson⟩, after) := by
  rcases result_cases hresult with ⟨report', final, hcommits, he⟩ | ⟨report', -, he⟩
  · obtain ⟨hsources, houtput⟩ := Result.mk.inj he
    obtain rfl := AppendReport.toJson_inj houtput
    obtain rfl := Option.some.inj hsources
    have hagent : Config.builtIn.agent "default" = .ok ⟨"sourcelog-kernel", none, none⟩ := by rfl
    have hsession : Config.builtIn.session "default" = .ok .writer := by rfl
    obtain ⟨after, hwrite⟩ := hfile (Journal.toText final.sources)
    exact ⟨final, after, hcommits, rfl, hwrite, launch_append harguments rfl rfl hlog hdata hagent
      hsession hresult (hdisk ▸ hwrite)⟩
  · cases (Result.mk.inj he).1

/-- Such an append leaves a journal that holds the log which it committed, and that can be written
again. -/
theorem reopened_ex {log : LogState} (report : AppendReport) (hr : log.Reachable)
    (hi : ∀ source ∈ log.sources, source.Integral) (hd : payload.height ≤ Journal.deltaDepth)
    (harguments : readArguments launch.arguments =
      .ok (exInvocation data messageKey resolution))
    (hdata : Decoder.ofText Decoder.payload data = .ok payload)
    (hlog : workspace.log "journal.json" = .ok state) (hdisk : launch.outlets.disk = .free)
    (hfile : ∀ text, ∃ after, workspace.write .free "journal.json" text = .ok after)
    (hresult : (exPosting launch payload messageKey resolution).result .writer state =
      .ok ⟨some log.sources, report.toJson⟩) :
    (workspace.launch launch).1 = launch.outlets.print ⟨some log.sources, report.toJson⟩ ∧
      (workspace.launch launch).2.log "journal.json" = .ok log ∧
      ∀ text, ∃ last, (workspace.launch launch).2.write .free "journal.json" text = .ok last := by
  obtain ⟨final, after, hcommits, hsources, hwrite, hlaunch⟩ :=
    launch_ex report harguments hdata hlog hdisk hfile hresult
  have hposts := posts_ex harguments hdata
  have hfinal : final = log := eq_of_sources (commits_spec hposts hlog hcommits).1 hr hsources
  subst hfinal
  obtain ⟨reopened, hopen⟩ := (commit_reopens_iff hposts hlog hcommits hwrite).mpr (.inr hd)
  rw [hlaunch]
  refine ⟨rfl, ?_, write_again hwrite⟩
  rw [hopen, commit_reopened_same hposts hlog hcommits hwrite hi hopen]

end RunsLemmas

end LeaseLog.CommandLine
