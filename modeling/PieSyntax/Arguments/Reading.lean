/-
# Reading arguments

Arguments are read from left to right: first those before the command, then those of the command.
Flags and options may stand anywhere, and options that both may have count for the command if it
repeats them.  A value that is still waiting for its option to be complete is only judged when the
next flag, option or path begins, or at the end.
-/
import PieSyntax.Arguments

namespace PieSyntax.Arguments

/-! ## Names -/

/-- The commands. -/
inductive CommandName where
  | parse
  | tokens
  | check
  | roundTrip
  | repl
deriving DecidableEq

/-- The command that an argument names. -/
def CommandName.ofText? (text : String) : Option CommandName :=
  if text = "parse" then some parse
  else if text = "tokens" then some tokens
  else if text = "check" then some check
  else if text = "round-trip" then some roundTrip
  else if text = "repl" then some repl
  else none

/-- Options that take a value. -/
inductive ValueOption where
  | config
  | functionTypes
  | maxDepth
  | jobs
deriving DecidableEq

/-- Options that take no value. -/
inductive Flag where
  | verbose
  | json
  | help
  | version
deriving DecidableEq

/-- An option of either sort. -/
inductive OptionName where
  | value (option : ValueOption)
  | flag (flag : Flag)
deriving DecidableEq

namespace OptionName

/-- Whether the option may stand among the arguments of a command, or before all commands. -/
def allowed (level : Option CommandName) : OptionName → Bool
  | value .jobs => level = some .check
  | flag .json => level = some .parse
  | flag .version => level = none
  | _ => true

/-- The option with a long name. -/
def ofLong? (level : Option CommandName) (name : List Char) : Option OptionName :=
  let found :=
    if name = "config".toList then some (value .config)
    else if name = "function-types".toList then some (value .functionTypes)
    else if name = "max-depth".toList then some (value .maxDepth)
    else if name = "jobs".toList then some (value .jobs)
    else if name = "verbose".toList then some (flag .verbose)
    else if name = "json".toList then some (flag .json)
    else if name = "help".toList then some (flag .help)
    else if name = "version".toList then some (flag .version)
    else none
  found.filter (allowed level)

/-- The option with a letter as its name. -/
def ofLetter? (level : Option CommandName) (letter : Char) : Option OptionName :=
  let found :=
    if letter = 'j' then some (value .jobs)
    else if letter = 'v' then some (flag .verbose)
    else if letter = 'h' then some (flag .help)
    else if letter = 'V' then some (flag .version)
    else none
  found.filter (allowed level)

end OptionName

/-- The form of an argument. -/
inductive Word where
  /-- Two dashes, after which no argument is an option. -/
  | separator
  /-- A long name, perhaps with a value after an equals sign. -/
  | long (name : List Char) (value : Option (List Char))
  /-- A dash and letters. -/
  | letters (letters : List Char)
  | plain
deriving DecidableEq

/-- The form of the argument `text`; a single dash is plain. -/
def Word.ofText (text : List Char) : Word :=
  match text with
  | ['-', '-'] => separator
  | '-' :: '-' :: rest =>
    match rest.dropWhile (· ≠ '=') with
    | [] => long rest none
    | _ :: value => long (rest.takeWhile (· ≠ '=')) (some value)
  | '-' :: c :: rest => letters (c :: rest)
  | _ => plain

/-! ## Values -/

/-- What has been given so far. -/
structure Given where
  config : Option String := none
  functionTypes : Option FunctionTypes := none
  maxDepth : Option Nat := none
  jobs : Option Nat := none
  verbosity : Nat := 0
  json : Bool := false
  paths : List String := []
deriving DecidableEq

/-- Verbosity is counted up to here. -/
def verbosityLimit : Nat := 255

/-- The positive number of 64 bits that `text` writes in decimal, perhaps after a plus sign. -/
def positive? (text : List Char) : Option Nat :=
  let digits := match text with
    | '+' :: rest => rest
    | _ => text
  (Settings.digits? 10 digits).filter (· ≠ 0)

namespace Given

/-- A first value for an option. -/
def once {α : Type} (old : Option α) (new : Except UsageStop α) : Except UsageStop (Option α) :=
  match old with
  | some _ => .error .repeated
  | none => new.map some

/-- A value that must not be empty. -/
def nonempty (text : String) : Except UsageStop String :=
  if text = "" then .error .emptyValue else .ok text

/-- A value that must be a positive number. -/
def number (text : String) : Except UsageStop Nat :=
  match positive? text.toList with
  | some n => .ok n
  | none => .error .malformedNumber

/-- A value that must be one of the choices for arrow forms. -/
def choice (text : String) : Except UsageStop FunctionTypes :=
  match FunctionTypes.ofName? text with
  | some f => .ok f
  | none => .error .unknownChoice

/-- What is given with one more option. -/
def assign (g : Given) (option : ValueOption) (text : String) : Except UsageStop Given :=
  match option with
  | .config => return { g with config := ← once g.config (nonempty text) }
  | .functionTypes => return { g with functionTypes := ← once g.functionTypes (choice text) }
  | .maxDepth => return { g with maxDepth := ← once g.maxDepth (number text) }
  | .jobs => return { g with jobs := ← once g.jobs (number text) }

/-- What is given with one more flag. -/
def raise (g : Given) (flag : Flag) : Except UsageStop Given :=
  match flag with
  | .verbose => .ok { g with verbosity := min verbosityLimit (g.verbosity + 1) }
  | .json => if g.json then .error .repeated else .ok { g with json := true }
  | .help => .error .help
  | .version => .error .version

/-- What is given with more paths. -/
def addPaths (g : Given) (paths : List String) : Except UsageStop Given :=
  return { g with paths := g.paths ++ (← paths.mapM nonempty) }

end Given

/-! ## The reader -/

/-- What has been met but not yet judged. -/
inductive Waiting where
  | nothing
  /-- An option, and its value once that has been met. -/
  | option (option : ValueOption) (value : Option String)
  | paths (paths : List String)
deriving DecidableEq

/-- Whether an option still lacks its value. -/
def Waiting.needsValue : Waiting → Bool
  | option _ none => true
  | _ => false

/-- The reader between two arguments. -/
structure Reader where
  given : Given := {}
  waiting : Waiting := .nothing
deriving DecidableEq

namespace Reader

/-- Judges what is waiting. -/
def settle (r : Reader) : Except UsageStop Reader :=
  match r.waiting with
  | .nothing => .ok r
  | .option _ none => .error .emptyValue
  | .option o (some text) => return { given := ← r.given.assign o text }
  | .paths paths => return { given := ← r.given.addPaths paths }

/-- Meets a flag. -/
def raise (r : Reader) (flag : Flag) : Except UsageStop Reader := do
  let r ← r.settle
  return { given := ← r.given.raise flag }

/-- Meets an option, perhaps with its value attached. -/
def option (r : Reader) (o : ValueOption) (value : Option (List Char)) :
    Except UsageStop Reader := do
  let r ← r.settle
  match value with
  | some text => return { given := ← r.given.assign o (String.ofList text) }
  | none => return { r with waiting := .option o none }

/-- Meets a long name. -/
def long (level : Option CommandName) (r : Reader) (name : List Char)
    (value : Option (List Char)) : Except UsageStop Reader :=
  match OptionName.ofLong? level name with
  | none => .error .unknownArgument
  | some (.value o) => r.option o value
  | some (.flag f) => if value.isSome then .error .surplusValue else r.raise f

/-- Meets letters; what follows the letter of an option is its value. -/
def letters (level : Option CommandName) (r : Reader) : List Char → Except UsageStop Reader
  | [] => .ok r
  | c :: rest =>
    match OptionName.ofLetter? level c with
    | none => .error .unknownArgument
    | some (.flag f) => do letters level (← r.raise f) rest
    | some (.value o) =>
      match rest with
      | [] => r.option o none
      | '=' :: value => r.option o (some value)
      | value => r.option o (some value)

/-- Meets a path among the arguments of `command`. -/
def path (command : CommandName) (r : Reader) (text : String) : Except UsageStop Reader :=
  match command, r.waiting with
  | .repl, _ => .error .unknownArgument
  | .check, .paths paths => .ok { r with waiting := .paths (paths ++ [text]) }
  | .check, _ => do return { ← r.settle with waiting := .paths [text] }
  | _, .paths _ => .error .unknownArgument
  | _, _ =>
    if r.given.paths = [] then do return { ← r.settle with waiting := .paths [text] }
    else .error .unknownArgument

/-- Meets an argument of `command`; after the separator every argument is a path. -/
def word (level : Option CommandName) (r : Reader) (text : String) : Except UsageStop Reader :=
  match Word.ofText text.toList with
  | .long name value => r.long level name value
  | .letters cs => r.letters level cs
  | .separator | .plain =>
    match r.waiting, level with
    | .option o none, _ => .ok { r with waiting := .option o (some text) }
    | _, some command => r.path command text
    | _, none => .error .unknownCommand

/-- Reads the arguments of `command`. -/
def command (name : CommandName) : Reader → List String → Except UsageStop Reader
  | r, [] => r.settle
  | r, text :: rest =>
    if text = "--" then do
      let r ← rest.foldlM (Reader.path name) r
      r.settle
    else do command name (← r.word (some name) text) rest

/-- What the arguments after a request for help on commands amount to. -/
def helpOn : List String → UsageStop
  | [] => .help
  | [name] => if name = "help" ∨ (CommandName.ofText? name).isSome then .help else .unknownCommand
  | _ => .unknownCommand

/-- What an argument after a separator amounts to when no command has been named. -/
def strayCommand (text : String) : UsageStop :=
  if text = "help" ∨ (CommandName.ofText? text).isSome then .unknownArgument else .unknownCommand

/-- Reads up to a command and finds the arguments after it.  The value of an option may be spelled
like a command. -/
def untilCommand (r : Reader) : List String →
    Except UsageStop (Reader × Option (CommandName × List String))
  | [] => .ok (r, none)
  | text :: rest =>
    match CommandName.ofText? text with
    | some name =>
      if r.waiting.needsValue then do untilCommand (← r.word none text) rest
      else .ok (r, some (name, rest))
    | none =>
      if text = "--" then
        match rest with
        | [] => .ok (r, none)
        | stray :: _ => .error (strayCommand stray)
      else if text = "help" ∧ !r.waiting.needsValue then .error (helpOn rest)
      else do untilCommand (← r.word none text) rest

end Reader

/-! ## Command lines -/

/-- The action of a command with what was given to it. -/
def CommandName.action (name : CommandName) (g : Given) : Except UsageStop Action :=
  match name, g.paths with
  | .repl, _ => .ok .session
  | _, [] => .error .missingArgument
  | .check, paths => .ok (.check paths g.jobs)
  | .parse, file :: _ => .ok (.parse file g.json)
  | .tokens, file :: _ => .ok (.tokens file)
  | .roundTrip, file :: _ => .ok (.roundTrip file)

/-- The arguments that a command line amounts to. -/
def ofList (args : List String) : Except UsageStop Arguments := do
  let (outer, found) ← Reader.untilCommand {} args
  match found with
  | none =>
    let outer ← outer.settle
    .error (if outer.given = {} then .nothingGiven else .missingCommand)
  | some (name, rest) =>
    let inner := (← Reader.command name {} rest).given
    let action ← name.action inner
    let outer := (← outer.settle).given
    return { action
             verbosity := if inner.verbosity = 0 then outer.verbosity else inner.verbosity
             config := inner.config <|> outer.config
             functionTypes := inner.functionTypes <|> outer.functionTypes
             maxDepth := inner.maxDepth <|> outer.maxDepth }

end PieSyntax.Arguments
