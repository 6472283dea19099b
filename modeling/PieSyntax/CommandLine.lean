/-
# The command line

What a command line does, given the files, the input and the output: the effects in order, the exit
code, and the files afterwards.
-/
import PieSyntax.Node.Outline
import PieSyntax.Node.Json
import PieSyntax.Listing
import PieSyntax.Discovery
import PieSyntax.Check
import PieSyntax.Terminal
import PieSyntax.Arguments.Reading

namespace PieSyntax

/-! ## Surroundings -/

/-- Where the lines of a session come from. -/
inductive Input where
  | piped (bytes : List UInt8)
  /-- A terminal without editing. -/
  | lines (bytes : List UInt8)
  /-- A terminal with editing. -/
  | keys (keys : List Char)

/-- What a command line finds when it is run. -/
structure Surroundings where
  files : FileSystem
  input : Input := .piped []
  /-- The directory for what outlives a session. -/
  stateDirectory : Option String := none
  /-- Whether anybody reads the output. -/
  outputOpen : Bool := true

/-- What a command line leaves when it is done. -/
structure Run where
  effects : List Effect
  exitCode : Nat
  files : FileSystem

/-! ## Commands on files -/

/-- What a command does, and whether it succeeds. -/
structure Performance where
  effects : List Effect
  success : Bool

namespace Performance

/-- A command that only writes. -/
def writing (text : StyledText) : Performance := ⟨Effect.writeAll text, true⟩

/-- A command that fails before it writes anything. -/
def failing (failure : Failure) : Performance := ⟨[.report failure], false⟩

/-- What happens instead if nobody reads the output. -/
def onClosedOutput (p : Performance) : Performance :=
  match Effect.onClosedOutput? p.effects with
  | none => p
  | some effects => ⟨effects, false⟩

end Performance

/-- Prints the tree of a file. -/
def parseCommand (fs : FileSystem) (settings : Settings) (file : String) (json : Bool) :
    Performance :=
  match checkFile fs settings file with
  | .error failure => .failing failure
  | .ok tree =>
    .writing (if json then [.text (tree.root.json.pretty ++ ['\n'])] else tree.root.outline)

/-- Lists the tokens and comments of a file; the limit on nesting does not matter. -/
def tokensCommand (fs : FileSystem) (settings : Settings) (file : String) : Performance :=
  match fs.text? file with
  | none => .failing (.unreadable file)
  | some source =>
    match tokenizeWithComments settings.arrows source with
    | .error e => .failing (.malformed (.lexical e) file source)
    | .ok tokens => .writing (listing tokens)

/-- The byte at which two texts first differ. -/
def firstDifference? (s t : List Char) : Option Nat :=
  if s = t then none
  else
    let common := ((Text.encode s).zip (Text.encode t)).takeWhile fun (a, b) => a == b
    some common.length

/-- Compares a file with the text that its tree stands for. -/
def roundTripCommand (fs : FileSystem) (settings : Settings) (file : String) : Performance :=
  match checkFile fs settings file, fs.text? file with
  | .error failure, _ => .failing failure
  | .ok _, none => .failing (.unreadable file)
  | .ok tree, some source =>
    match firstDifference? source tree.source with
    | some offset => .failing (.roundTrip file offset)
    | none => .writing (statusLine true (file ++ " round-trips").toList)

/-- Checks all source files at or below the paths.  A path below which nothing can be found counts
as a failure. -/
def checkCommand (fs : FileSystem) (settings : Settings) (jobs : Nat) (paths : List String) :
    Performance :=
  let found := paths.map fs.sourceFiles
  let failures := found.filterMap fun
    | .ok _ => none
    | .error failure => some failure
  let files := found.flatMap fun
    | .ok files => files
    | .error _ => []
  let reports := checkFiles fs settings jobs files
  let failed := failures.length + (reports.filter fun r => !r.isOk).length
  ⟨failures.map .report ++ reportEffects reports failed, failed == 0⟩

/-! ## Sessions -/

/-- What a session writes before its first prompt. -/
def banner : List Effect :=
  [.printLine "Pie REPL v0.1.0".toList,
   .printLine "Type :help for help, :quit to exit".toList,
   .printLine []]

/-- The directory for what outlives a session, by the values of `XDG_STATE_HOME` and `HOME`.  The
first one counts only if it is an absolute path. -/
def stateDirectoryOf (stateHome home : Option String) : Option String :=
  (stateHome.filter fun directory => directory.toList.head? = some '/').or
    (home.map fun directory => Path.join directory ".local/state")

/-- The directory of the history file. -/
def historyDirectory (stateDirectory : String) : String := Path.join stateDirectory "pie"

/-- The name of the history file. -/
def historyName : String := "history"

/-- The path of the history file. -/
def historyPath (stateDirectory : String) : String :=
  Path.join (historyDirectory stateDirectory) historyName

/-- The history of earlier sessions; what cannot be read counts as none. -/
def Surroundings.history (s : Surroundings) : History :=
  match s.stateDirectory with
  | none => {}
  | some directory =>
    match s.files.bytes? (historyPath directory) with
    | none => {}
    | some bytes => History.ofFile bytes

/-- The directory for the history file and the text for it.  Nothing is written that would be no
news. -/
def Surroundings.historyToSave? (s : Surroundings) (history : History) :
    Option (String × List Char) :=
  if history.isFresh then
    s.stateDirectory.map fun directory => (historyDirectory directory, history.file)
  else none

/-- The files after the history is saved; a history that cannot be written is given up. -/
def Surroundings.saveHistory (s : Surroundings) (history : History) : FileSystem :=
  match s.historyToSave? history with
  | none => s.files
  | some (directory, text) =>
    (s.files.write? directory historyName (Text.encode text)).getD s.files

/-- What a session does at its end, and its exit code, by whether all its input was text. -/
def sessionEnd (readable : Bool) : List Effect × Nat :=
  if readable then ([], 0) else ([.report (.unreadable "<stdin>")], 1)

/-- The run of a session with this transcript. -/
def Surroundings.finishSession (s : Surroundings) (t : Transcript) (history : Option History) :
    Run :=
  let (last, exitCode) := sessionEnd t.readable
  ⟨banner ++ t.effects ++ last, exitCode,
    if t.readable then history.elim s.files s.saveHistory else s.files⟩

/-- The exit code of a session that cannot even write its banner. -/
def abandoned : Nat := 101

/-- Runs a session. -/
def Surroundings.runSession (s : Surroundings) (settings : Settings) : Run :=
  let session : Session := { settings }
  let onTerminal (typing : Typing) : Run :=
    let t := session.runTerminal s.history typing
    s.finishSession t.toTranscript (some t.history)
  if s.outputOpen then
    match s.input with
    | .piped bytes => s.finishSession (session.run (Text.byteLines bytes)) none
    | .lines bytes => onTerminal (.ofLines settings [] (Text.byteLines bytes))
    | .keys keys => onTerminal (.ofKeys settings [] keys)
  else ⟨[], abandoned, s.files⟩

/-! ## The whole -/

/-- The run of a command that leaves the files alone. -/
def Surroundings.finish (s : Surroundings) (p : Performance) : Run :=
  let p := if s.outputOpen then p else p.onClosedOutput
  ⟨p.effects, if p.success then 0 else 1, s.files⟩

/-- Does what the arguments ask for. -/
def Surroundings.perform (s : Surroundings) (settings : Settings) : Action → Run
  | .parse file json => s.finish (parseCommand s.files settings file json)
  | .tokens file => s.finish (tokensCommand s.files settings file)
  | .check paths jobs => s.finish (checkCommand s.files settings (jobs.getD 1) paths)
  | .roundTrip file => s.finish (roundTripCommand s.files settings file)
  | .session => s.runSession settings

/-- Runs a command line. -/
def Surroundings.run (s : Surroundings) (args : List String) : Run :=
  match Arguments.ofList args with
  | .error stop =>
    let answered := stop.exitCode = 0 && s.outputOpen
    ⟨if answered then [.printLine stop.message.toList] else [], stop.exitCode, s.files⟩
  | .ok arguments =>
    match arguments.settings s.files with
    | .error e => ⟨[.report (.settings e)], 1, s.files⟩
    | .ok settings => s.perform settings arguments.action

end PieSyntax
