/-
# File systems

A file tree with a working directory.  A path leads to a location: names go down, two dots go up,
and every link on the way is replaced by its target, a limited number of times.  A path can only lead
on through a directory, also where it ends in a slash.
-/
import PieSyntax.Text.Lines
import PieSyntax.Path
import PieSyntax.FileTree

namespace PieSyntax

/-- All files, and the location that relative paths start from. -/
structure FileSystem where
  root : FileTree
  workingDirectory : List String := []

namespace FileSystem

/-! ## From paths to locations -/

/-- The number of links that may be met on the way. -/
def linkLimit : Nat := 40

/-- The pieces of a path as strings. -/
def pieces (path : String) : List String := (slashPieces path.toList).map String.ofList

/-- The location that a path starts from, seen from the directory at `here`. -/
def origin (here : List String) (path : String) : List String :=
  if path.toList.head? = some '/' then [] else here

/-- Goes on from the directory at `here`; the last piece may name nothing yet if `fresh` is set. -/
def follow? (root : FileTree) (fresh : Bool) (links : Nat) (here : List String) :
    List String → Option (List String)
  | [] => some here
  | piece :: rest =>
    match root.at? here with
    | some (.directory entries) =>
      if piece = "" ∨ piece = "." then follow? root fresh links here rest
      else if piece = ".." then follow? root fresh links here.dropLast rest
      else
        match entries.lookup piece, links with
        | none, _ => if fresh ∧ rest = [] then some (here ++ [piece]) else none
        | some (.link _), 0 => none
        | some (.link target), links + 1 =>
          follow? root fresh links (origin here target) (pieces target ++ rest)
        | some _, links => follow? root fresh links (here ++ [piece]) rest
    | _ => none
termination_by path => (links, path.length)

/-- The location of what stands at `path`. -/
def locate? (fs : FileSystem) (path : String) : Option (List String) :=
  if path = "" then none
  else follow? fs.root false linkLimit (origin fs.workingDirectory path) (pieces path)

/-- What stands at `path`; never a link. -/
def find? (fs : FileSystem) (path : String) : Option FileTree :=
  (fs.locate? path).bind fs.root.at?

/-! ## Reading and writing -/

/-- The bytes of the file at `path`. -/
def bytes? (fs : FileSystem) (path : String) : Option (List UInt8) :=
  match fs.find? path with
  | some (.file content) => some content
  | _ => none

/-- The text of the file at `path`, if it is UTF-8. -/
def text? (fs : FileSystem) (path : String) : Option (List Char) :=
  (fs.bytes? path).bind Text.decode?

/-- The location at which a file at `path` can be written, if its directory is there. -/
def place? (fs : FileSystem) (path : String) : Option (List String) := do
  let location ← follow? fs.root true linkLimit (origin fs.workingDirectory path) (pieces path)
  match fs.root.at? location with
  | some (.directory _) => none
  | _ => return location

/-- Makes the missing directories on the way along `names` from the directory at `here`. -/
def makeDirectories? (root : FileTree) (here : List String) : List String → Option FileTree
  | [] => some root
  | name :: rest =>
    match (root.at? here).bind (·.child? name) with
    | none => makeDirectories? (root.setDirectory (here ++ [name])) (here ++ [name]) rest
    | some _ => do
      let location ← follow? root false linkLimit here [name]
      let t ← root.at? location
      if t.isDirectory then makeDirectories? root location rest else none

/-- Writes the file `name` into the directory at a path, which is made if it is missing. -/
def write? (fs : FileSystem) (directory name : String) (content : List UInt8) :
    Option FileSystem := do
  let names := (pieces directory).filter (· ≠ "")
  let root ← makeDirectories? fs.root (origin fs.workingDirectory directory) names
  let made := { fs with root }
  let location ← made.place? (Path.join directory name)
  return { made with root := root.setFile location content }

end FileSystem

end PieSyntax
