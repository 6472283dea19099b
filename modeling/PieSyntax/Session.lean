/-
# Interactive sessions

A session reads one line after the other.  A line that leaves a form open is held back, and the next
line is added to it; a line that starts with a colon where no form is open is a command.
-/
import PieSyntax.Text.Blank
import PieSyntax.Text.Lines
import PieSyntax.Node.Sexp
import PieSyntax.Parser
import PieSyntax.Effect

namespace PieSyntax

/-! ## Commands -/

/-- A command to the session itself. -/
inductive SessionCommand where
  | help
  | quit
  /-- No command goes by this text. -/
  | unknown (text : List Char)
deriving DecidableEq

/-- The commands and their short forms. -/
def SessionCommand.spellings : List (List Char) :=
  [":help".toList, ":h".toList, ":quit".toList, ":q".toList]

/-- The command that `text` spells; the case of ASCII letters does not matter. -/
def SessionCommand.ofText (text : List Char) : SessionCommand :=
  let folded := text.map Char.toLower
  if folded = ":help".toList ∨ folded = ":h".toList then help
  else if folded = ":quit".toList ∨ folded = ":q".toList then quit
  else unknown text

/-- Whether `line` is meant as a command. -/
def isCommand (line : List Char) : Bool := (Text.trimFront line).head? = some ':'

/-- Whether `source` ends inside an open form. -/
def needsMoreInput (settings : Settings) (source : List Char) : Bool :=
  match parse settings source with
  | .error e => e.isIncomplete
  | .ok _ => false

/-! ## The session -/

/-- What one line amounts to. -/
inductive SessionReply where
  | command (command : SessionCommand)
  /-- The text so far ends inside an open form. -/
  | incomplete
  | parsed (tree : SyntaxTree)
  | failed (failure : Failure)

/-- A session between two lines. -/
structure Session where
  settings : Settings
  /-- The lines of the form that is still open. -/
  held : List Char := []
  /-- The number of the entry that is being read. -/
  entry : Nat := 1
deriving DecidableEq

namespace Session

/-- Whether a form is still open. -/
def isContinuing (s : Session) : Bool := !s.held.isEmpty

/-- The prompt for a new entry. -/
def entryPrompt : List Char := "ΛΠ ≫ ".toList

/-- The prompt while a form is open. -/
def continuationPrompt : List Char := " …  ".toList

/-- The prompt for the next line. -/
def prompt (s : Session) : List Char := if s.isContinuing then continuationPrompt else entryPrompt

/-- The name of the current entry in reports. -/
def entryName (s : Session) : String := "<repl:" ++ toString s.entry ++ ">"

/-- The session after an entry is done. -/
def finishEntry (s : Session) : Session := { s with held := [], entry := s.entry + 1 }

/-- `line` with a line feed at its end. -/
def withLineFeed (line : List Char) : List Char :=
  if line.getLast? = some '\n' then line else line ++ ['\n']

/-- Adds a line and tries to read all that is held back so far. -/
def feed (s : Session) (line : List Char) : SessionReply × Session :=
  let trimmed := Text.trim line
  if !s.isContinuing && isCommand trimmed then (.command (.ofText trimmed), s)
  else
    let source := s.held ++ withLineFeed line
    match parse s.settings source with
    | .ok tree => (.parsed tree, s.finishEntry)
    | .error e =>
      if e.isIncomplete then (.incomplete, { s with held := source })
      else (.failed (.malformed e s.entryName source), s.finishEntry)

end Session

/-! ## Replies -/

/-- What the command for help writes. -/
def helpLines : List String :=
  ["Pie REPL Commands:",
   "  :help, :h     Show this help",
   "  :quit, :q     Exit the REPL",
   "",
   "Enter Pie forms to see their syntax trees.",
   "A form left open continues on the next line."]

namespace SessionReply

/-- What the session does upon the reply. -/
def effects : SessionReply → List Effect
  | command .help => helpLines.map fun line => .printLine line.toList
  | command .quit => []
  | command (.unknown text) =>
    [.printLine ("Unknown command: ".toList ++ text ++
      ". Type :help for available commands.".toList)]
  | incomplete => []
  | parsed tree => tree.forms.map fun form => .printLine form.sexp
  | failed failure => [.report failure]

/-- Whether the session ends upon the reply. -/
def ends : SessionReply → Bool
  | command .quit => true
  | _ => false

end SessionReply

/-! ## Piped input -/

/-- What a session did until its end. -/
structure Transcript where
  effects : List Effect
  /-- Whether no line was met that is no text. -/
  readable : Bool

/-- The transcript with more effects in front. -/
def Transcript.after (effects : List Effect) (t : Transcript) : Transcript :=
  { t with effects := effects ++ t.effects }

/-- Runs the session over lines of piped input.  Each line is asked for with a prompt; the end of the
input is answered with an empty line. -/
def Session.run (s : Session) : List (Option (List Char)) → Transcript
  | [] => ⟨[.print s.prompt, .printLine []], true⟩
  | none :: _ => ⟨[.print s.prompt], false⟩
  | some line :: rest =>
    let (reply, next) := s.feed line
    let effects := .print s.prompt :: reply.effects
    if reply.ends then ⟨effects, true⟩ else (next.run rest).after effects

end PieSyntax
