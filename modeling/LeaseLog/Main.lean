import LeaseLog.CommandLine.Run
import Std.Time.DateTime.Timestamp

/-!
# The program

Reads the files that an invocation names, carries it out, writes the journal and prints the result.
-/

namespace LeaseLog.CommandLine

/-- The text that is printed when arguments are not understood. -/
def usageText : String :=
  "Usage: sourcelog [--journal FILE] [--config FILE] [--agent NAME] [--session NAME] COMMAND\n" ++
  "\n" ++
  "Commands:\n" ++
  "  append --stream KEY --type NAME --data JSON [--message-key KEY] [--new | --existing]\n" ++
  "  pointers [--lease-scope SCOPE] [--tag LABEL=VALUE]... [--newest-first]\n" ++
  "  leases [--scope SCOPE]\n" ++
  "  deltas [--stream-id ID]\n"

/-- Reads a file. A path that cannot be followed to its end leads to a file that is missing. -/
def readFile (path : String) : IO FileContent := do
  try
    discard (IO.FS.realPath path)
  catch _ => return .missing
  try
    return .bytes (← IO.FS.readBinFile path)
  catch _ => return .unreadable

/-- A random identifier. -/
def freshIdent : IO Ident := do
  let bytes ← IO.getRandomBytes 16
  let value := bytes.foldl (fun value byte => value * 256 + byte.toNat) 0
  -- The version and the variant of a random identifier have fixed digits.
  let high := value / Nat.pow 2 80 * Nat.pow 2 80
  let middle := 4 * Nat.pow 2 76 + value / Nat.pow 2 64 % Nat.pow 2 12 * Nat.pow 2 64
  let low := Nat.pow 2 63 + value % Nat.pow 2 62
  return .ofNat (high + middle + low)

/-- The current time. -/
def currentInstant : IO Instant := do
  let now ← Std.Time.Timestamp.now
  return .ofNanos now.toNanosecondsSinceUnixEpoch.val.toNat

/-- The number of this process, as the system shows it to the process itself. -/
def ownProcessId : IO Nat := do
  try
    let status ← IO.FS.readFile "/proc/self/stat"
    return Text.ofDigits (status.toList.takeWhile Text.isDigit)
  catch _ => return 0

/-- Carries an invocation out. -/
def perform (invocation : Invocation) : IO (Except RunError Result) := do
  let journal ← readFile invocation.journal
  let config ← match invocation.config with
    | some path => readFile path
    | none => pure .missing
  let stamp := ⟨← freshIdent, ← currentInstant⟩
  let surroundings : Surroundings := {
    read := fun path => if path = invocation.journal then journal else config
    fresh := ← freshIdent
    stamp
    processId := ← ownProcessId }
  match run invocation surroundings with
  | .error cause => return .error cause
  | .ok result =>
    match result.saved with
    | none => return .ok result
    | some sources =>
      try
        IO.FS.writeFile invocation.journal (Journal.toText sources)
        return .ok result
      catch _ => return .error (.journalUnwritable invocation.journal)

end LeaseLog.CommandLine

open LeaseLog.CommandLine in
/-- Exits with 0, with 1 when a run fails, with 2 when the arguments are not understood, and with 101
when the result cannot be printed. -/
def main (arguments : List String) : IO UInt32 := do
  match readArguments arguments with
  | .error .help =>
    IO.print usageText
    return 0
  | .error .usage =>
    IO.eprint usageText
    return 2
  | .ok invocation =>
    match ← perform invocation with
    | .error cause =>
      IO.eprintln ("Error: " ++ cause.message)
      return 1
    | .ok result =>
      try
        IO.print result.text
        (← IO.getStdout).flush
        return 0
      catch _ => return 101
