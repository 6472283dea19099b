/-
# Arguments of the command line

What a command line asks for: an action, and settings that override those of a file.
-/
import PieSyntax.FileSystem
import PieSyntax.Settings.Reading

namespace PieSyntax

/-- What is to be done. -/
inductive Action where
  /-- Prints the tree of a file, perhaps as JSON. -/
  | parse (file : String) (json : Bool)
  /-- Lists the tokens and comments of a file. -/
  | tokens (file : String)
  /-- Checks all source files at or below the paths, with at most so many workers. -/
  | check (paths : List String) (jobs : Option Nat)
  /-- Compares a file with the text that its tree stands for. -/
  | roundTrip (file : String)
  /-- Starts an interactive session. -/
  | session
deriving DecidableEq

/-- A command line that has been understood. -/
structure Arguments where
  action : Action
  /-- How often more log output was asked for. -/
  verbosity : Nat := 0
  /-- The settings file. -/
  config : Option String := none
  functionTypes : Option FunctionTypes := none
  maxDepth : Option Nat := none
deriving DecidableEq

namespace Arguments

/-- The settings that the file and the overrides amount to. -/
def settings (a : Arguments) (fs : FileSystem) : Except SettingsError Settings := do
  let base ← match a.config with
    | none => pure {}
    | some path => Settings.ofFile path (fs.text? path)
  return { functionTypes := a.functionTypes.getD base.functionTypes
           maxDepth := a.maxDepth.getD base.maxDepth }

end Arguments

/-- Why the reading of arguments stops without an action. -/
inductive UsageStop where
  /-- Help was asked for. -/
  | help
  /-- The version was asked for. -/
  | version
  /-- Nothing at all was given. -/
  | nothingGiven
  | missingCommand
  | unknownCommand
  | unknownArgument
  /-- A file or path is missing. -/
  | missingArgument
  /-- An option has no value, or an empty one. -/
  | emptyValue
  /-- A value is none of the choices. -/
  | unknownChoice
  /-- A value is no positive number of 64 bits. -/
  | malformedNumber
  /-- An option is given twice. -/
  | repeated
  /-- A flag is given a value. -/
  | surplusValue
deriving DecidableEq

namespace UsageStop

/-- The exit code: only a request for help or the version is a success. -/
def exitCode : UsageStop → Nat
  | help | version => 0
  | _ => 2

/-- The stop in the words of a message. -/
def message : UsageStop → String
  | help => "Usage: pie [OPTIONS] <COMMAND>"
  | version => "pie 0.1.0"
  | nothingGiven => "Usage: pie [OPTIONS] <COMMAND>"
  | missingCommand => "error: a command is required"
  | unknownCommand => "error: unrecognized command"
  | unknownArgument => "error: unexpected argument"
  | missingArgument => "error: a required argument is missing"
  | emptyValue => "error: an option needs a value"
  | unknownChoice => "error: a value is none of the choices"
  | malformedNumber => "error: a value is no positive number"
  | repeated => "error: an option is given twice"
  | surplusValue => "error: a flag takes no value"

end UsageStop

end PieSyntax
