/-
# File trees

Files, directories and symbolic links.  A location is a list of names from the root of the tree; it
goes through directories only and follows no link.
-/

namespace PieSyntax

/-- A file, a directory or a symbolic link. -/
inductive FileTree where
  | file (content : List UInt8)
  | directory (entries : List (String × FileTree))
  | link (target : String)

namespace FileTree

/-! ## Looking -/

/-- What the directory holds under `name`. -/
def child? : FileTree → String → Option FileTree
  | directory entries, name => entries.lookup name
  | _, _ => none

/-- What stands at a location. -/
def at? (t : FileTree) : List String → Option FileTree
  | [] => some t
  | name :: rest => (t.child? name).bind fun child => child.at? rest

/-- Whether this is a directory. -/
def isDirectory : FileTree → Bool
  | directory _ => true
  | _ => false

/-! ## Changing -/

/-- The entries with `child` under `name`, in the place of what was there. -/
def setEntry (name : String) (child : FileTree) : List (String × FileTree) → List (String × FileTree)
  | [] => [(name, child)]
  | (other, t) :: rest =>
    if other = name then (name, child) :: rest else (other, t) :: setEntry name child rest

/-- Replaces what stands at a location, or nothing, by a value of `change`; directories on the way
are made where they are missing. -/
def alter (change : Option FileTree → FileTree) : List String → Option FileTree → FileTree
  | [], t => change t
  | name :: rest, t =>
    let entries := match t with
      | some (directory entries) => entries
      | _ => []
    directory (setEntry name (alter change rest (entries.lookup name)) entries)

/-- The tree with a file of the given content at a location. -/
def setFile (t : FileTree) (location : List String) (content : List UInt8) : FileTree :=
  alter (fun _ => file content) location (some t)

/-- The tree with a link at a location. -/
def setLink (t : FileTree) (location : List String) (target : String) : FileTree :=
  alter (fun _ => link target) location (some t)

/-- The tree with a directory at a location; one that is there keeps its entries. -/
def setDirectory (t : FileTree) (location : List String) : FileTree :=
  alter (fun
    | some (directory entries) => directory entries
    | _ => directory []) location (some t)

end FileTree

end PieSyntax
