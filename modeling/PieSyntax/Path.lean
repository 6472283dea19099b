/-
# Paths

A path is kept as it is written; its meaning lies in its steps.  Paths are ordered step by step, so
that everything below a directory stands together.
-/

namespace PieSyntax

/-- A step of a path. -/
inductive PathStep where
  /-- The root of all files, at the front of an absolute path. -/
  | root
  /-- The directory itself; it only counts at the front of a relative path. -/
  | here
  | parent
  | name (text : List Char)
deriving DecidableEq

/-- The pieces of `text` between slashes. -/
def slashPieces : List Char → List (List Char)
  | [] => [[]]
  | c :: rest =>
    if c = '/' then [] :: slashPieces rest
    else
      match slashPieces rest with
      | [] => [[c]]
      | piece :: pieces => (c :: piece) :: pieces

namespace Path

/-! ## Steps -/

/-- The step that a piece stands for, unless it can be left out. -/
def step? (piece : List Char) : Option PathStep :=
  if piece = [] ∨ piece = ['.'] then none
  else if piece = ['.', '.'] then some .parent
  else some (.name piece)

/-- The steps of a path. -/
def steps (path : String) : List PathStep :=
  let pieces := slashPieces path.toList
  let front := if path.toList.head? = some '/' then [PathStep.root]
    else if pieces.head? = some ['.'] then [.here]
    else []
  front ++ pieces.filterMap step?

/-- The path of the entry `name` in the directory at `path`. -/
def join (path name : String) : String :=
  if path.toList.getLast? = some '/' then path ++ name else path ++ "/" ++ name

/-! ## Extensions -/

/-- What follows the last dot of a file name; a dot at its front does not count. -/
def extension? (name : List Char) : Option (List Char) :=
  match name.reverse.dropWhile (· ≠ '.') with
  | [] | [_] => none
  | _ => some (name.reverse.takeWhile (· ≠ '.')).reverse

/-- Whether `path` ends in a name with the extension of source files. -/
def isPieFile (path : String) : Bool :=
  match (steps path).getLast? with
  | some (.name text) => extension? text = some "pie".toList
  | _ => false

/-! ## Order -/

/-- The key by which steps are ordered: the root, the directory itself, its parent, and then names by
their characters. -/
def stepKey : PathStep → List Nat
  | .root => [0]
  | .here => [1]
  | .parent => [2]
  | .name text => 3 :: text.map Char.toNat

/-- The key by which paths are ordered. -/
def key (path : String) : List (List Nat) := (steps path).map stepKey

/-- Whether `a` stands before `b`, or is made of the same steps. -/
def le (a b : String) : Bool :=
  !(key b).lex (key a) fun s t => s.lex t fun m n => decide (m < n)

end Path

end PieSyntax
