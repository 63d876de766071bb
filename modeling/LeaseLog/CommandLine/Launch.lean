import LeaseLog.CommandLine.Workspace

/-!
# Runs in a working directory

A run reads its files. If an append is committed, the run writes the journal anew, and only then
prints what it did. Either may fail: the disk may refuse the journal or take only the beginning of
it, and standard output may refuse what is printed, when the journal is written already.
-/

namespace LeaseLog.CommandLine

/-- What a run writes to. -/
structure Outlets where
  disk : Disk
  /-- Whether standard output takes what is printed. -/
  printable : Bool

/-- How a run ends. -/
inductive Ending
  | stopped (stop : Stop)
  | failed (cause : RunError)
  | printed (result : Result)
  /-- There is a result and it is saved, but it could not be printed. -/
  | unprinted (result : Result)

/-- The exit code of a run. -/
def Ending.exitCode : Ending → Nat
  | .stopped .help => 0
  | .stopped .usage => 2
  | .failed _ => 1
  | .printed _ => 0
  | .unprinted _ => 101

/-- Prints a result. -/
def Outlets.print (outlets : Outlets) (result : Result) : Ending :=
  if outlets.printable then .printed result else .unprinted result

namespace Workspace

/-- Writes the journal of a result, if it is to be written. -/
def save (workspace : Workspace) (disk : Disk) (path : String) (result : Result) :
    Except Workspace Workspace :=
  match result.saved with
  | none => .ok workspace
  | some sources => workspace.write disk path (Journal.toText sources)

/-- Runs the program with arguments in a directory. -/
def run (workspace : Workspace) (arguments : List String) (fresh : Ident) (stamp : Stamp)
    (processId : Nat) (outlets : Outlets) : Ending × Workspace :=
  match readArguments arguments with
  | .error stop => (.stopped stop, workspace)
  | .ok invocation =>
    match CommandLine.run invocation ⟨workspace.read, fresh, stamp, processId⟩ with
    | .error cause => (.failed cause, workspace)
    | .ok result =>
      match workspace.save outlets.disk invocation.journal result with
      | .error left => (.failed (.journalUnwritable invocation.journal), left)
      | .ok saved => (outlets.print result, saved)

end Workspace

end LeaseLog.CommandLine
