import LeaseLog.CommandLine.Run

/-!
# Working directories

The program is started in a directory of a tree. What stands in the tree is up to the system, except
that the directory is there and so are those above it. A path is walked part by part, from the root
or from the working directory.
-/

namespace LeaseLog.CommandLine

/-- A place in a tree of directories: the names from it up to the root. -/
abbrev Location := List String

/-- What stands at a place. -/
inductive Node
  | directory
  /-- Leads to another place. -/
  | link (target : Location)
  | file (content : ByteArray)
  /-- Something else, which can be neither read nor written. -/
  | closed

/-- A tree of directories, and the one in which the program is started. -/
structure Workspace where
  working : Location
  /-- What stands at the places that are not on the way to the working directory. -/
  nodes : Location → Option Node

/-- The disk, as a run finds it. -/
inductive Disk
  | free
  /-- Nothing can be changed. -/
  | locked
  /-- Only so many bytes find room. -/
  | full (room : Nat)

namespace Workspace

/-- How many bytes a path may have. -/
def maxPath : Nat := 4095

/-- How many bytes a name may have. -/
def maxName : Nat := 255

/-- How many links a path may lead through. -/
def maxLinks : Nat := 40

/-! ## Places -/

/-- What stands at a place. -/
def node? (workspace : Workspace) (place : Location) : Option Node :=
  if place <:+ workspace.working then some .directory else workspace.nodes place

/-- Whether a directory stands at a place. -/
def isDirectory (workspace : Workspace) (place : Location) : Bool :=
  match workspace.node? place with
  | some .directory => true
  | none | some (.link _) | some (.file _) | some .closed => false

/-- Whether a file stands at a place or can be put there. -/
def isWritable (workspace : Workspace) (place : Location) : Bool :=
  match workspace.node? place with
  | none | some (.file _) => true
  | some .directory | some (.link _) | some .closed => false

/-- Puts a file at a place. -/
def put (workspace : Workspace) (place : Location) (content : ByteArray) : Workspace :=
  { workspace with nodes := fun other =>
      if other = place then some (.file content) else workspace.nodes other }

/-! ## Paths -/

/-- Where a link at a place leads in the end, and how many links may still be followed. -/
def follow (workspace : Workspace) : Nat → Location → Option (Nat × Location)
  | 0, place =>
    match workspace.node? place with
    | some (.link _) => none
    | none | some .directory | some (.file _) | some .closed => some (0, place)
  | links + 1, place =>
    match workspace.node? place with
    | some (.link target) => workspace.follow links target
    | none | some .directory | some (.file _) | some .closed => some (links + 1, place)

/-- Where the parts of a path lead from a directory. A part that is empty or a single point stays
where it is, two points lead to the directory above, and the root has itself above it. Only a
directory has something behind it, be it no more than the end of the path after a slash. -/
def walk (workspace : Workspace) (links : Nat) (current : Location) :
    List String → Option Location
  | [] => some current
  | name :: rest =>
    if name = "" ∨ name = "." then workspace.walk links current rest
    else if name = ".." then workspace.walk links current.tail rest
    else if maxName < name.utf8ByteSize then none
    else
      match workspace.follow links (name :: current) with
      | none => none
      | some (links, place) =>
        if rest = [] then some place
        else if workspace.isDirectory place then workspace.walk links place rest
        else none

/-- Where a path leads, if it leads anywhere. Nothing need stand there yet. -/
def locate (workspace : Workspace) (path : String) : Option Location :=
  let parts := (path.toList.splitOn '/').map String.ofList
  if path = "" ∨ maxPath < path.utf8ByteSize then none
  else workspace.walk maxLinks (if path.startsWith "/" then [] else workspace.working) parts

/-! ## Files -/

/-- What is found behind a path. -/
def read (workspace : Workspace) (path : String) : FileContent :=
  match workspace.locate path with
  | none => .missing
  | some place =>
    match workspace.node? place with
    | none => .missing
    | some (.file content) => .bytes content
    | some .directory | some (.link _) | some .closed => .unreadable

/-- Writes a file. If that fails, the error is what the attempt leaves: a file is emptied before it
is written. -/
def write (workspace : Workspace) (disk : Disk) (path text : String) :
    Except Workspace Workspace :=
  match workspace.locate path with
  | none => .error workspace
  | some place =>
    if workspace.isWritable place then
      match disk with
      | .free => .ok (workspace.put place text.toUTF8)
      | .locked => .error workspace
      | .full room =>
        if text.utf8ByteSize ≤ room then .ok (workspace.put place text.toUTF8)
        else .error (workspace.put place (text.toUTF8.extract 0 room))
    else .error workspace

end Workspace

end LeaseLog.CommandLine
