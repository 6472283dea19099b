/-
# Effects

What a tool does to the outside, in order: it writes to its output and reports failures.  What
reaches a reader who has gone away stops at the first write.
-/
import PieSyntax.Styled
import PieSyntax.Failure

namespace PieSyntax

/-- One thing that a tool does. -/
inductive Effect where
  /-- Writes to the output. -/
  | write (text : StyledText)
  /-- Reports a failure. -/
  | report (failure : Failure)

namespace Effect

/-- Writes characters without any style. -/
def print (text : List Char) : Effect := .write [.text text]

/-- Writes a line without any style. -/
def printLine (text : List Char) : Effect := print (text ++ ['\n'])

/-- Writes a text, or does nothing if there is none. -/
def writeAll (text : StyledText) : List Effect := if text.isEmpty then [] else [.write text]

/-- All that is written. -/
def written (effects : List Effect) : StyledText :=
  effects.flatMap fun
    | .write text => text
    | .report _ => []

/-- All failures that are reported, in order. -/
def reported (effects : List Effect) : List Failure :=
  effects.filterMap fun
    | .write _ => none
    | .report failure => some failure

@[simp] theorem written_append (s t : List Effect) : written (s ++ t) = written s ++ written t := by
  simp [written]

@[simp] theorem reported_append (s t : List Effect) :
    reported (s ++ t) = reported s ++ reported t := by
  simp [reported]

/-- What happens instead if nobody reads the output: the first write fails, which is reported and
ends the tool.  A tool that writes nothing is not affected. -/
def onClosedOutput? : List Effect → Option (List Effect)
  | [] => none
  | .write _ :: _ => some [.report (.unreadable "<stdout>")]
  | .report failure :: rest => (onClosedOutput? rest).map (.report failure :: ·)

end Effect

end PieSyntax
