import LeaseLog.CommandLine.Arguments
import LeaseLog.Journal
import LeaseLog.Query.Criteria

/-!
# Runs of the program

A run reads the configuration and the journal, opens a session on the log that the journal holds,
and appends to a stream or lists records. An append that is committed writes the journal anew before
the result is printed; nothing else writes.
-/

namespace LeaseLog.CommandLine

/-- What stands behind a file name. -/
inductive FileContent
  | missing
  /-- Something that cannot be read as a file. -/
  | unreadable
  | bytes (content : ByteArray)

namespace FileContent

/-- The content, if it can be read. -/
def toBytes? : FileContent → Option ByteArray
  | .missing | .unreadable => none
  | .bytes content => some content

end FileContent

/-- Why a run fails once its arguments are understood. -/
inductive RunError
  | config (cause : ConfigError)
  | journalUnreadable (path : String)
  | journalMalformed (cause : DecodeError)
  | replay (cause : ReplayError)
  | dataMalformed
  | stream (cause : StreamError)
  | repository (cause : RepositoryError)
  | journalUnwritable (path : String)
deriving DecidableEq, Repr

/-- The wording of a failure. -/
def RunError.message : RunError → String
  | .config cause => cause.message
  | .journalUnreadable path => "reading journal " ++ path
  | .journalMalformed cause => cause.message
  | .replay cause => cause.message
  | .dataMalformed => "--data is not valid JSON"
  | .stream cause => cause.message
  | .repository cause => cause.message
  | .journalUnwritable path => "writing journal " ++ path

/-- What a run that does not fail leaves: the journal, if it is to be written, and the output. -/
structure Result where
  saved : Option (List Source)
  output : Json

/-- What a run takes from its surroundings. -/
structure Surroundings where
  read : String → FileContent
  /-- The identifier of a stream, if the run starts one. -/
  fresh : Ident
  /-- The stamp of the source, if the run commits one. -/
  stamp : Stamp
  processId : Nat

/-- The configuration of an invocation. -/
def loadConfig (surroundings : Surroundings) : Option String → Except RunError Config
  | none => .ok .builtIn
  | some path =>
    match Config.ofFile (surroundings.read path).toBytes? with
    | .ok config => .ok config
    | .error cause => .error (.config cause)

/-- The sources of a journal; a missing file is an empty journal. -/
def loadJournal (surroundings : Surroundings) (path : String) : Except RunError (List Source) :=
  match surroundings.read path with
  | .missing => .ok []
  | .unreadable => .error (.journalUnreadable path)
  | .bytes content =>
    match String.fromUTF8? content with
    | none => .error (.journalUnreadable path)
    | some text =>
      match Journal.ofText text with
      | .ok sources => .ok sources
      | .error cause => .error (.journalMalformed cause)

/-! ## Appending -/

/-- What an append prints. -/
structure AppendReport where
  streamId : Ident
  isNew : Bool
  staged : Bool
  committed : Bool
  version : Version
deriving DecidableEq, Repr

def AppendReport.toJson (report : AppendReport) : Json :=
  .object [("stream_id", report.streamId.toJson), ("is_new", .bool report.isNew),
    ("staged", .bool report.staged), ("committed", .bool report.committed),
    ("version", report.version.toJson)]

/-- Gathers the delta of an append: under its key if it has one. -/
def stageDelta (single : SingleStream) (delta : Delta) (storage : Storage) :
    Except StreamError Bool × SingleStream × Storage :=
  match delta.messageKey with
  | some _ => single.appendKeyed delta .never storage
  | none =>
    let (result, single) := single.append delta
    (result.map fun _ => true, single, storage)

/-- Appends one delta to a stream and commits it. -/
def runAppend (factory : Factory) (invocation : Invocation) (surroundings : Surroundings)
    (key : String) (delta : Delta) (resolution : Resolution) (storage : Storage) :
    Except RunError Result :=
  match factory.createSingle invocation.agent invocation.session resolution key surroundings.fresh
      .never storage with
  | (.error cause, _, _) => .error (.stream cause)
  | (.ok single, _, storage) =>
    match stageDelta single delta storage with
    | (.error cause, _, _) => .error (.stream cause)
    | (.ok staged, single, storage) =>
      match single.commit surroundings.stamp .never storage with
      | (.error cause, _, _) => .error (.stream cause)
      | (.ok committed, single, storage) =>
        let stream := single.stream
        match single.dispose storage with
        | (.error cause, _) => .error (.stream cause)
        | (.ok (), storage) =>
          .ok {
            saved :=
              if committed then some (storage.stateOf factory.connector.engine).sources else none
            output := AppendReport.toJson
              ⟨stream.id, stream.isNew, staged, committed, stream.version⟩ }

/-! ## Listing -/

/-- All entries of a listing up to the first error. -/
def collect {listing : Listing} :
    List (Entry listing) → Except RepositoryError (List listing.Item)
  | [] => .ok []
  | .error cause :: _ => .error cause
  | .ok item :: entries => (collect entries).map (item :: ·)

/-- Lists records. -/
def runListing (factory : Factory) (invocation : Invocation) (listing : Listing) (query : Query)
    (write : listing.Item → Json) (storage : Storage) : Except RunError Result :=
  match factory.createMultiple invocation.agent invocation.session storage with
  | (.error cause, _, _) => .error (.stream cause)
  | (.ok unit, _, storage) =>
    let (cursor, storage) := unit.repository.list listing query storage
    match collect (cursor.entries storage) with
    | .error cause => .error (.repository cause)
    | .ok items =>
      match unit.dispose storage with
      | (.error cause, _) => .error (.stream cause)
      | (.ok (), _) => .ok ⟨none, .ofList write items⟩

/-! ## Whole runs -/

/-- Carries a command out on a log. -/
def runCommand (factory : Factory) (invocation : Invocation) (surroundings : Surroundings)
    (storage : Storage) : Except RunError Result :=
  match invocation.command with
  | .append key dataType data messageKey resolution =>
    match Decoder.ofText Decoder.payload data with
    | .error _ => .error .dataMalformed
    | .ok payload =>
      runAppend factory invocation surroundings key ⟨.native dataType, .ok payload, messageKey⟩
        resolution storage
  | .pointers leaseScope tags newestFirst =>
    let query := { Criteria.any with leaseScope, tags }.toQuery
    runListing factory invocation .pointers (if newestFirst then query.reversed else query)
      Pointer.toJson storage
  | .leases scope =>
    runListing factory invocation .leases { Criteria.any with leaseScope := scope }.toQuery
      LeaseRecord.toJson storage
  | .deltas stateId =>
    runListing factory invocation .deltas { Criteria.any with stateIds := stateId.toList }.toQuery
      DeltaRecord.toJson storage

/-- Carries an invocation out, up to writing the journal and printing. -/
def run (invocation : Invocation) (surroundings : Surroundings) : Except RunError Result :=
  match loadConfig surroundings invocation.config with
  | .error cause => .error cause
  | .ok config =>
    match loadJournal surroundings invocation.journal with
    | .error cause => .error cause
    | .ok sources =>
      match Engine.ofSources sources with
      | .error cause => .error (.replay cause)
      | .ok engine =>
        let (engine, storage) := Storage.empty.addEngine engine
        let (guard, storage) := storage.addGuard
        runCommand ⟨⟨engine, none, [], []⟩, config, guard, surroundings.processId⟩ invocation
          surroundings storage

/-- The text that a run prints. -/
def Result.text (result : Result) : String := result.output.toPrettyText ++ "\n"

end LeaseLog.CommandLine
