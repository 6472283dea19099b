/-
# Checking files

A batch of files is cut into chunks, one for each worker; the verdicts come back in the order of the
files.  Main statement: the chunks together are the batch (`flatten_chunksOf`), so that the number of
workers cannot be seen in the verdicts.
-/
import PieSyntax.FileSystem
import PieSyntax.Parser
import PieSyntax.Status
import PieSyntax.Effect

namespace PieSyntax

/-! ## One file -/

/-- The tree of the file at `path`, or why there is none. -/
def checkFile (fs : FileSystem) (settings : Settings) (path : String) : Except Failure SyntaxTree :=
  match fs.text? path with
  | none => .error (.unreadable path)
  | some source =>
    match parse settings source with
    | .error e => .error (.malformed e path source)
    | .ok tree => .ok tree

/-- The verdict on one file. -/
structure FileReport where
  path : String
  result : Except Failure SyntaxTree

namespace FileReport

/-- The verdict on the file at `path`. -/
def ofFile (fs : FileSystem) (settings : Settings) (path : String) : FileReport :=
  ⟨path, checkFile fs settings path⟩

/-- The failure, if the file failed. -/
def failure? (r : FileReport) : Option Failure :=
  match r.result with
  | .ok _ => none
  | .error failure => some failure

/-- Whether the file holds a program. -/
def isOk (r : FileReport) : Bool := r.failure?.isNone

end FileReport

/-! ## Batches -/

/-- `l` cut into pieces of `size` elements, the last one perhaps shorter; a size of zero counts as
one. -/
def chunksOf {α : Type} (size : Nat) : List α → List (List α)
  | [] => []
  | a :: rest => (a :: rest.take (size - 1)) :: chunksOf size (rest.drop (size - 1))
termination_by l => l.length
decreasing_by simp only [List.length_drop, List.length_cons]; omega

/-- Chunks hold everything once and in order. -/
theorem flatten_chunksOf {α : Type} (size : Nat) (l : List α) : (chunksOf size l).flatten = l := by
  fun_induction chunksOf size l with
  | case1 => rfl
  | case2 a rest ih => simp [ih]

/-- The work for each of at most `jobs` workers. -/
def workerChunks (jobs : Nat) (paths : List String) : List (List String) :=
  chunksOf ((paths.length + jobs - 1) / jobs) paths

/-- The verdicts on a batch of files that is shared among at most `jobs` workers. -/
def checkFiles (fs : FileSystem) (settings : Settings) (jobs : Nat) (paths : List String) :
    List FileReport :=
  (workerChunks jobs paths).flatMap fun chunk => chunk.map (FileReport.ofFile fs settings)

/-! ## Reports -/

/-- What is shown of one verdict. -/
def FileReport.effects (r : FileReport) : List Effect :=
  .write (statusLine r.isOk r.path.toList) :: r.failure?.toList.map .report

/-- The last line of a report. -/
def summaryLine (checked failed : Nat) : List Char :=
  ("Checked " ++ toString checked ++ " files, " ++ toString failed ++ " failed").toList

/-- What is shown of all verdicts when `failed` paths have already failed. -/
def reportEffects (reports : List FileReport) (failed : Nat) : List Effect :=
  reports.flatMap FileReport.effects ++
    [.printLine [], .printLine (summaryLine reports.length failed)]

end PieSyntax
