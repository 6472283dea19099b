/-
# Failures

What the tools report: a syntax error together with the text it is in, a file that cannot be read,
settings that make no sense, or a tree that does not write its source again.
-/
import PieSyntax.SyntaxError
import PieSyntax.Settings.Reading

namespace PieSyntax

/-- What a tool reports. -/
inductive Failure where
  /-- An error in the text `source`, which goes by the given name. -/
  | malformed (error : SyntaxError) (name : String) (source : List Char)
  /-- Reading or writing `path` failed. -/
  | unreadable (path : String)
  /-- There are no settings. -/
  | settings (error : SettingsError)
  /-- The tree of `path` writes a text that differs from byte `offset` on. -/
  | roundTrip (path : String) (offset : Nat)

namespace Failure

/-- What a report shows of the failure. -/
def diagnostic : Failure → Diagnostic
  | malformed error _ _ => error.diagnostic
  | unreadable path => ⟨"Couldn't read " ++ path, "pie::io", none, []⟩
  | settings error => ⟨error.message, "pie::config", none, []⟩
  | roundTrip path offset =>
    ⟨path ++ " does not round-trip", "pie::round_trip",
      some ("the rebuilt text first differs at byte " ++ toString offset), []⟩

/-- The code of the failure. -/
def code (f : Failure) : String := f.diagnostic.code

/-- The syntax error, if it is one. -/
def syntaxError? : Failure → Option SyntaxError
  | malformed error _ _ => some error
  | _ => none

/-- The name and the text of the source that the report shows, if it shows one. -/
def source? : Failure → Option (String × List Char)
  | malformed _ name source => some (name, source)
  | _ => none

end Failure

end PieSyntax
