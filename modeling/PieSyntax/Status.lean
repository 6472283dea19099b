/-
# Status lines

A green check mark or a red cross before a message.
-/
import PieSyntax.Styled

namespace PieSyntax

/-- The line that says whether `message` is good news. -/
def statusLine (ok : Bool) (message : List Char) : StyledText :=
  let (mark, colour) := if ok then ('✓', Colour.green) else ('✗', Colour.red)
  [.style { colour := some colour }, .text [mark], .reset, .text (' ' :: message ++ ['\n'])]

end PieSyntax
