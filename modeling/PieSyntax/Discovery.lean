/-
# Finding source files

The source files at or below a path, in the order of paths.  A path to a file stands for that file,
whatever its name.  Below a directory a walk meets the entries in some order; the name decides, and
links are passed over.
-/
import PieSyntax.FileSystem
import PieSyntax.Failure

namespace PieSyntax

/-! ## Walks -/

/-- What an entry is; a link is not followed. -/
inductive EntryKind where
  | file
  | directory
  | link
deriving DecidableEq

/-- What a walk meets. -/
inductive Visit where
  | entry (path : String) (kind : EntryKind)
  /-- Something that cannot be read. -/
  | fault
deriving DecidableEq

namespace FileTree

/-- What stands at the root of the tree. -/
def kind : FileTree → EntryKind
  | file _ => .file
  | directory _ => .directory
  | link _ => .link

mutual

/-- A walk through a tree that stands at `path`; a directory comes before what it holds. -/
def walk (path : String) : FileTree → List Visit
  | file _ => [.entry path .file]
  | directory entries => .entry path .directory :: walkIn path entries
  | link _ => [.entry path .link]

/-- A walk through what the directory at `path` holds. -/
def walkIn (path : String) : List (String × FileTree) → List Visit
  | [] => []
  | (name, t) :: rest => t.walk (Path.join path name) ++ walkIn path rest

end

end FileTree

/-! ## Source files -/

/-- The source files that a walk from `root` meets.  A fault ends the walk. -/
def sourceEntries (root : String) : List Visit → Except Failure (List String)
  | [] => .ok []
  | .fault :: _ => .error (.unreadable root)
  | .entry path kind :: rest => do
    let files ← sourceEntries root rest
    return if kind = .file ∧ Path.isPieFile path then path :: files else files

/-- The source files at or below `root`, which may be a file, from what a walk from there meets. -/
def discover (root : String) (isFile : Bool) (walk : List Visit) : Except Failure (List String) :=
  if isFile then .ok [root] else (sourceEntries root walk).map (·.mergeSort Path.le)

namespace FileSystem

/-- Whether a file stands at `path`. -/
def isFile (fs : FileSystem) (path : String) : Bool :=
  match fs.find? path with
  | some (.file _) => true
  | _ => false

/-- A walk from `path`, which meets a fault if nothing stands there. -/
def walk (fs : FileSystem) (path : String) : List Visit :=
  match fs.find? path with
  | some t => t.walk path
  | none => [.fault]

/-- The source files at or below `path`. -/
def sourceFiles (fs : FileSystem) (path : String) : Except Failure (List String) :=
  discover path (fs.isFile path) (fs.walk path)

end FileSystem

end PieSyntax
