import LeaseLog.Ident
import LeaseLog.Lease
import LeaseLog.Stream.Factory

/-!
# Command-line arguments

Four subcommands, each with its own options. The options that name the journal, the configuration,
the agent and the session may stand on either side of the subcommand; behind it they count more.

An option's value is the next argument or stands behind an equals sign. An argument that starts with
a hyphen is a value only in the second form. An option may come once, unless it gathers values.
-/

namespace LeaseLog.CommandLine

/-! ## Invocations -/

/-- What the program is asked to do. -/
inductive Command
  | append (stream dataType data : String) (messageKey : Option String) (resolution : Resolution)
  | pointers (leaseScope : Option String) (tags : List Tag) (newestFirst : Bool)
  | leases (scope : Option String)
  | deltas (stateId : Option Ident)
deriving Repr

/-- A command and the settings that it runs under. -/
structure Invocation where
  journal : String
  config : Option String
  agent : String
  session : String
  command : Command
deriving Repr

/-- Why arguments do not make an invocation. -/
inductive Stop
  /-- They ask for the usage text. -/
  | help
  /-- They are not understood. -/
  | usage
deriving DecidableEq, Repr

/-! ## Options -/

/-- What an option takes. -/
inductive OptionKind
  | flag
  /-- One value that passes a check. -/
  | value (accepts : String → Bool)
  /-- Any number of values that pass a check, one each time. -/
  | values (accepts : String → Bool)

/-- An option that a subcommand knows. -/
structure OptionSpec where
  name : String
  kind : OptionKind

/-- Options that were given, with their values, the last one first. -/
abbrev Given := List (String × String)

/-- The value of an option that was given once. -/
def lookup (given : Given) (name : String) : Option String :=
  (given.find? fun option => option.1 = name).map Prod.snd

/-- All values of an option, in order. -/
def lookupAll (given : Given) (name : String) : List String :=
  (given.reverse.filter fun option => option.1 = name).map Prod.snd

/-- Takes in the value of an option. -/
def give (spec : OptionSpec) (value : String) (given : Given) : Except Stop Given :=
  match spec.kind with
  | .flag => if (lookup given spec.name).isSome then .error .usage
    else .ok ((spec.name, value) :: given)
  | .value accepts =>
    if (lookup given spec.name).isSome || !accepts value then .error .usage
    else .ok ((spec.name, value) :: given)
  | .values accepts => if accepts value then .ok ((spec.name, value) :: given) else .error .usage

/-- Whether an argument can only be an option. -/
def isOption (argument : String) : Bool :=
  match argument.toList with
  | '-' :: _ :: _ => true
  | _ => false

/-- What an argument is. -/
inductive Token
  /-- A word that is neither an option nor a value of one. -/
  | word (text : String)
  /-- The mark after which nothing is an option. -/
  | endOfOptions
  /-- An option that asks for the usage text. -/
  | help
  /-- An option by its long name, and the value behind the equals sign. -/
  | long (name : String) (value : Option String)
  /-- An option by a letter that no option has. -/
  | unknown

/-- Cuts an argument up. -/
def tokenize (argument : String) : Token :=
  match argument.toList with
  | ['-', '-'] => .endOfOptions
  | '-' :: '-' :: cs =>
    let name := String.ofList (cs.takeWhile (· ≠ '='))
    match cs.dropWhile (· ≠ '=') with
    | '=' :: value => .long name (some (String.ofList value))
    | _ => if name = "help" then .help else .long name none
  | '-' :: 'h' :: _ => .help
  | '-' :: _ :: _ => .unknown
  | _ => .word argument

/-- Reads options up to the end or up to the first word, which is returned with what follows it.
`pending` is the option that waits for its value. -/
def readOptions (specs : List OptionSpec) :
    (given : Given) → (pending : Option OptionSpec) → List String →
      Except Stop (Given × List String)
  | given, none, [] => .ok (given, [])
  | _, some _, [] => .error .usage
  | given, some spec, argument :: arguments =>
    if isOption argument then .error .usage
    else
      match give spec argument given with
      | .error stop => .error stop
      | .ok given => readOptions specs given none arguments
  | given, none, argument :: arguments =>
    match tokenize argument with
    | .word _ => .ok (given, argument :: arguments)
    | .endOfOptions => .ok (given, argument :: arguments)
    | .help => .error .help
    | .unknown => .error .usage
    | .long name value =>
      match specs.find? fun spec => spec.name = name, value with
      | none, _ => .error .usage
      | some ⟨_, .flag⟩, some _ => .error .usage
      | some ⟨name, .flag⟩, none =>
        match give ⟨name, .flag⟩ "" given with
        | .error stop => .error stop
        | .ok given => readOptions specs given none arguments
      | some spec, some value =>
        match give spec value given with
        | .error stop => .error stop
        | .ok given => readOptions specs given none arguments
      | some spec, none => readOptions specs given (some spec) arguments

/-! ## The options of the program -/

/-- Any text. -/
def anyText : OptionKind := .value fun _ => true

/-- The name of a file. -/
def fileName : OptionKind := .value fun value => !value.isEmpty

/-- The options that may stand on either side of the subcommand. -/
def globalOptions : List OptionSpec :=
  [⟨"journal", fileName⟩, ⟨"config", fileName⟩, ⟨"agent", anyText⟩, ⟨"session", anyText⟩]

/-- The options of a subcommand. -/
def optionsOf : String → Option (List OptionSpec)
  | "append" => some [⟨"stream", anyText⟩, ⟨"type", anyText⟩, ⟨"data", anyText⟩,
      ⟨"message-key", anyText⟩, ⟨"new", .flag⟩, ⟨"existing", .flag⟩]
  | "pointers" => some [⟨"lease-scope", anyText⟩,
      ⟨"tag", .values fun value => (Tag.ofText? value).isSome⟩, ⟨"newest-first", .flag⟩]
  | "leases" => some [⟨"scope", anyText⟩]
  | "deltas" => some [⟨"stream-id", .value fun value => (Ident.ofText? value).isSome⟩]
  | _ => none

/-- Whether a flag was given. -/
def isGiven (given : Given) (name : String) : Bool := (lookup given name).isSome

/-- The command of a subcommand and its options; `none` if one that it needs is missing or two
contradict each other. -/
def commandOf (name : String) (given : Given) : Option Command :=
  match name with
  | "append" =>
    match lookup given "stream", lookup given "type", lookup given "data" with
    | some stream, some dataType, some data =>
      let messageKey := lookup given "message-key"
      match isGiven given "new", isGiven given "existing" with
      | true, true => none
      | true, false => some (.append stream dataType data messageKey .create)
      | false, true => some (.append stream dataType data messageKey .load)
      | false, false => some (.append stream dataType data messageKey .loadOrCreate)
    | _, _, _ => none
  | "pointers" => some (.pointers (lookup given "lease-scope")
      ((lookupAll given "tag").filterMap Tag.ofText?) (isGiven given "newest-first"))
  | "leases" => some (.leases (lookup given "scope"))
  | "deltas" => some (.deltas ((lookup given "stream-id").bind Ident.ofText?))
  | _ => none

/-- Reads what follows a subcommand. -/
def readCommand (outer : Given) (name : String) (specs : List OptionSpec)
    (arguments : List String) : Except Stop Invocation :=
  match readOptions (specs ++ globalOptions) [] none arguments with
  | .error stop => .error stop
  | .ok (given, rest) =>
    if rest ≠ [] ∧ rest ≠ ["--"] then .error .usage
    else
      match commandOf name given with
      | none => .error .usage
      | some command =>
        let setting (name : String) : Option String := (lookup given name).or (lookup outer name)
        .ok {
          journal := (setting "journal").getD "journal.json"
          config := setting "config"
          agent := (setting "agent").getD Config.defaultName
          session := (setting "session").getD Config.defaultName
          command }

/-- Reads the arguments of the program. -/
def readArguments (arguments : List String) : Except Stop Invocation :=
  match readOptions globalOptions [] none arguments with
  | .error stop => .error stop
  | .ok (_, []) => .error .usage
  | .ok (given, name :: rest) =>
    if name = "help" then
      match rest with
      | [] => .error .help
      | [topic] =>
        if topic = "help" || (optionsOf topic).isSome then .error .help else .error .usage
      | _ => .error .usage
    else
      match optionsOf name with
      | none => .error .usage
      | some specs => readCommand given name specs rest

end LeaseLog.CommandLine
