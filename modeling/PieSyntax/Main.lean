/-
# The program

Takes in the files that the arguments name, performs the effects of the run, and serves a terminal as
it is read.  What a line, an entry or the end of a session amounts to is asked of the library.
-/
import PieSyntax.CommandLine

namespace PieSyntax.Program

/-! ## Performing effects -/

/-- A failure as a report on the error output. -/
def reportLines (failure : Failure) : List String :=
  let d := failure.diagnostic
  let place (label : Label) : String :=
    match failure.source? with
    | some (name, source) =>
      match label.span.lineColumn? source with
      | some (line, column) => name ++ ":" ++ toString line ++ ":" ++ toString column ++ ": "
      | none => name ++ ": "
    | none => ""
  ["Error: " ++ d.code, "  × " ++ d.message] ++
    d.labels.map (fun label => "    " ++ place label ++ label.text) ++
    d.help.toList.map fun help => "  help: " ++ help

/-- Performs one effect, with colours if the output is a terminal. -/
def performEffect (coloured : Bool) : Effect → IO Unit
  | .write text => do
    let out ← IO.getStdout
    out.putStr (String.ofList (if coloured then text.ansi else text.plain))
    out.flush
  | .report failure => (reportLines failure).forM fun line => IO.eprintln line

/-- Performs effects in order. -/
def performAll (effects : List Effect) : IO Unit := do
  let coloured ← (← IO.getStdout).isTty
  effects.forM (performEffect coloured)

/-! ## Taking in files -/

/-- The file tree that stands at a path; what is neither a file, a directory nor a link is left
out. -/
partial def treeAt? (path : String) : IO (Option FileTree) := do
  let found ← IO.FS.realPath path
  match (← found.metadata).type with
  | .dir =>
    let entries ← (← found.readDir).toList.filterMapM fun entry => do
      match (← entry.path.symlinkMetadata).type with
      | .symlink => return some (entry.fileName, FileTree.link "")
      | _ => return (← treeAt? entry.path.toString).map fun t => (entry.fileName, t)
    return some (.directory entries)
  | .file => return some (.file (← IO.FS.readBinFile path).toList)
  | _ => return none

/-- Puts what stands at a path where the path leads to. -/
def takeIn (fs : FileSystem) (path : String) : IO FileSystem := do
  try
    match ← treeAt? path with
    | none => return fs
    | some t =>
      let start := FileSystem.origin fs.workingDirectory path
      let step (state : FileTree × List String) (piece : String) : FileTree × List String :=
        if piece = "" ∨ piece = "." then state
        else if piece = ".." then (state.1, state.2.dropLast)
        else (state.1.setDirectory state.2, state.2 ++ [piece])
      let (root, location) := (FileSystem.pieces path).foldl step (fs.root.setDirectory start, start)
      return { fs with root := FileTree.alter (fun _ => t) location (some root) }
  catch _ => return fs

/-- The paths that the arguments name. -/
def namedPaths (args : List String) : List String :=
  match Arguments.ofList args with
  | .error _ => []
  | .ok a =>
    a.config.toList ++
      match a.action with
      | .parse file _ | .tokens file | .roundTrip file => [file]
      | .check paths _ => paths
      | .session => []

/-- What is found when the program is run. -/
def surroundings (args : List String) : IO Surroundings := do
  let here := (FileSystem.pieces (← IO.currentDir).toString).filter (· ≠ "")
  let empty : FileSystem :=
    { root := (FileTree.directory []).setDirectory here, workingDirectory := here }
  let stateDirectory := stateDirectoryOf (← IO.getEnv "XDG_STATE_HOME") (← IO.getEnv "HOME")
  let files ← (namedPaths args ++ stateDirectory.toList.map historyPath).foldlM takeIn empty
  return { files, stateDirectory }

/-! ## Sessions -/

/-- Reads lines until an entry is complete; nothing at the end of the input. -/
partial def readEntry? (settings : Settings) (held : List Char) : IO (Option (List Char)) := do
  let line := (← (← IO.getStdin).getLine).toList
  if line.isEmpty then return none
  match EntryProgress.ofLine settings held line with
  | .complete entry => return some entry
  | .unfinished held => readEntry? settings held

/-- Talks to somebody at a terminal until the session ends. -/
partial def converse (s : Session) (history : History) : IO History := do
  performAll [.print Session.entryPrompt]
  match ← readEntry? s.settings [] with
  | none => return history
  | some entry =>
    let reply := s.take history (.entry entry)
    performAll reply.effects
    match reply.next with
    | none => return reply.history
    | some next => converse next reply.history

/-- Writes the history file of a session, if it can be written. -/
def writeHistory (s : Surroundings) (history : History) : IO Unit := do
  match s.historyToSave? history with
  | none => return
  | some (directory, text) =>
    try
      IO.FS.createDirAll directory
      IO.FS.writeFile (Path.join directory historyName) (String.ofList text)
    catch _ => return

/-- Runs a session at a terminal. -/
def runConversation (s : Surroundings) (settings : Settings) : IO UInt32 := do
  performAll banner
  let readable ←
    try
      writeHistory s (← converse { settings } s.history)
      pure true
    catch _ => pure false
  let (effects, exitCode) := sessionEnd readable
  performAll effects
  return UInt32.ofNat exitCode

/-! ## The whole -/

/-- Runs a command line that needs no conversation. -/
def runDetached (s : Surroundings) (args : List String) (session : Bool) : IO UInt32 := do
  let bytes ← if session then (← IO.getStdin).readBinToEnd else pure ByteArray.empty
  let run := { s with input := .piped bytes.toList }.run args
  performAll run.effects
  return UInt32.ofNat run.exitCode

end PieSyntax.Program

open PieSyntax PieSyntax.Program in
/-- Runs the command line. -/
def main (args : List String) : IO UInt32 := do
  let s ← surroundings args
  match Arguments.ofList args with
  | .error stop =>
    if stop.exitCode ≠ 0 then IO.eprintln stop.message
    runDetached s args false
  | .ok a =>
    match a.action, a.settings s.files with
    | .session, .ok settings =>
      if ← (← IO.getStdin).isTty then runConversation s settings else runDetached s args true
    | _, _ => runDetached s args false
