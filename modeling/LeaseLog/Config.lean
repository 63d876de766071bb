import LeaseLog.Json.Decoder

/-!
# Configuration

Named agents and named session settings. Without a configuration file there is one agent, and there
are two sessions of which one only reads.
-/

namespace LeaseLog

open Decoder

/-- The settings of a session. -/
structure SessionOptions where
  /-- Refuse every write. -/
  readOnly : Bool
  /-- Read from replicas where there are any. -/
  secondaryPreferred : Bool
  /-- How long a write may wait for the log, in milliseconds. -/
  writeTimeoutMs : Option Nat
deriving DecidableEq, Repr

namespace SessionOptions

/-- The settings of a session that reads and writes. -/
def writer : SessionOptions := ⟨false, false, none⟩

instance : Inhabited SessionOptions := ⟨writer⟩

/-- The settings of a session that only reads. -/
def reader : SessionOptions := { writer with readOnly := true }

def toJson (options : SessionOptions) : Json :=
  .object [("read_only", .bool options.readOnly),
    ("secondary_preferred", .bool options.secondaryPreferred),
    ("write_timeout_ms", .ofOption .nat options.writeTimeoutMs)]

def decoder : Decoder SessionOptions :=
  (record [withDefault "read_only" bool false, withDefault "secondary_preferred" bool false,
      withDefault "write_timeout_ms" (nullable (natBelow (Nat.pow 2 64))) none]).map
    fun (readOnly, secondaryPreferred, writeTimeoutMs, _) =>
      ⟨readOnly, secondaryPreferred, writeTimeoutMs⟩

end SessionOptions

/-- Who commits through a repository. -/
structure AgentProfile where
  system : String
  instanceName : Option String
  user : Option String
deriving DecidableEq, Repr, Inhabited

namespace AgentProfile

def toJson (profile : AgentProfile) : Json :=
  .object [("system", .string profile.system),
    ("instance", .ofOption .string profile.instanceName),
    ("user", .ofOption .string profile.user)]

def decoder : Decoder AgentProfile :=
  (record [required "system" text, withDefault "instance" (nullable text) none,
      withDefault "user" (nullable text) none]).map
    fun (system, instanceName, user, _) => ⟨system, instanceName, user⟩

end AgentProfile

/-- Why a configuration cannot be used. -/
inductive ConfigError
  /-- The file is missing, or it is not text. -/
  | io
  | parse (cause : DecodeError)
  | unknownAgent (name : String)
  | unknownSession (name : String)
deriving DecidableEq, Repr

/-- The wording of a configuration error. -/
def ConfigError.message : ConfigError → String
  | .io => "failed to read config"
  | .parse _ => "failed to parse config"
  | .unknownAgent name => "no agent configuration named `" ++ name ++ "`"
  | .unknownSession name => "no session configuration named `" ++ name ++ "`"

/-- Named agents and named session settings. -/
structure Config where
  agents : Std.ExtTreeMap String AgentProfile
  sessions : Std.ExtTreeMap String SessionOptions

namespace Config

/-- The name of the agent and of the session that are used unless others are named. -/
def defaultName : String := "default"

/-- The configuration that is used when no file is given. -/
def builtIn : Config where
  agents := (∅ : Std.ExtTreeMap String AgentProfile).insert defaultName
    ⟨"sourcelog-kernel", none, none⟩
  sessions := ((∅ : Std.ExtTreeMap String SessionOptions).insert defaultName .writer).insert
    "read-only" .reader

instance : Inhabited Config := ⟨builtIn⟩

/-- A table as an object, sorted by name. -/
def tableToJson {α : Type} (write : α → Json) (table : Std.ExtTreeMap String α) : Json :=
  .object (table.toList.map fun (name, value) => (name, write value))

def toJson (config : Config) : Json :=
  .object [("agents", tableToJson AgentProfile.toJson config.agents),
    ("sessions", tableToJson SessionOptions.toJson config.sessions)]

def decoder : Decoder Config :=
  (record [withDefault "agents" (table AgentProfile.decoder) ∅,
      withDefault "sessions" (table SessionOptions.decoder) ∅]).map
    fun (agents, sessions, _) => ⟨agents, sessions⟩

/-- The configuration in a text. -/
def ofText (text : String) : Except ConfigError Config :=
  match Decoder.ofText decoder text with
  | .ok config => .ok config
  | .error cause => .error (.parse cause)

/-- The configuration in a file, of which nothing is given when it cannot be read. -/
def ofFile : Option ByteArray → Except ConfigError Config
  | none => .error .io
  | some bytes =>
    match String.fromUTF8? bytes with
    | none => .error .io
    | some text => ofText text

/-- The agent of a name. -/
def agent (config : Config) (name : String) : Except ConfigError AgentProfile :=
  match config.agents[name]? with
  | some profile => .ok profile
  | none => .error (.unknownAgent name)

/-- The session settings of a name. -/
def session (config : Config) (name : String) : Except ConfigError SessionOptions :=
  match config.sessions[name]? with
  | some options => .ok options
  | none => .error (.unknownSession name)

end Config

end LeaseLog
