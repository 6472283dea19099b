/-
# Settings of the parser

How arrow forms are read, and how deeply forms may nest.
-/

namespace PieSyntax

/-- How a form headed by an arrow is read. -/
inductive FunctionTypes where
  /-- The arrow is an identifier, and the form an application. -/
  | application
  /-- The arrow is a keyword, and the form a function type. -/
  | production
deriving DecidableEq

namespace FunctionTypes

/-- The name of the choice in settings files and on the command line. -/
def name : FunctionTypes → String
  | application => "application"
  | production => "production"

/-- The choice with the given name. -/
def ofName? (text : String) : Option FunctionTypes :=
  if text = "application" then some application
  else if text = "production" then some production
  else none

/-- A choice can be named and understood. -/
theorem ofName?_name (f : FunctionTypes) : ofName? f.name = some f := by cases f <;> decide

end FunctionTypes

/-- The settings of the parser. -/
structure Settings where
  /-- How arrow forms are read. -/
  functionTypes : FunctionTypes := .application
  /-- How many parentheses may be open at once; the argument list of a lambda counts. -/
  maxDepth : Nat := 256
deriving DecidableEq

/-- Whether the arrow is a keyword under these settings. -/
def Settings.arrows (s : Settings) : Bool := s.functionTypes == .production

end PieSyntax
