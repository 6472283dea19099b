/-
# Styled text

Text with changes of style in between.  Written plainly, the changes leave no trace; written for a
terminal, each becomes an escape sequence.
-/

namespace PieSyntax

/-- The colours in use. -/
inductive Colour where
  | red
  | green
  | yellow
  | magenta
  | cyan
deriving DecidableEq

/-- The digit of the colour in an escape sequence. -/
def Colour.digit : Colour → Char
  | red => '1'
  | green => '2'
  | yellow => '3'
  | magenta => '5'
  | cyan => '6'

/-- How characters are drawn. -/
structure Style where
  bold : Bool := false
  dimmed : Bool := false
  colour : Option Colour := none
deriving DecidableEq

/-- A piece of styled text. -/
inductive StyledPiece where
  /-- Characters in the current style. -/
  | text (characters : List Char)
  /-- From here on in the given style. -/
  | style (style : Style)
  /-- From here on without a style. -/
  | reset

/-- Text with changes of style. -/
abbrev StyledText := List StyledPiece

namespace StyledText

/-- The escape sequence with the given parameter. -/
def escape (parameter : List Char) : List Char := '\x1b' :: '[' :: parameter ++ ['m']

/-- The escape sequences that begin a style: the style before is ended first. -/
def escapeStyle (s : Style) : List Char :=
  escape ['0'] ++ (if s.bold then escape ['1'] else []) ++ (if s.dimmed then escape ['2'] else []) ++
    match s.colour with
    | none => []
    | some c => escape ['3', c.digit]

/-- The characters alone. -/
def plain (t : StyledText) : List Char :=
  t.flatMap fun
    | .text cs => cs
    | .style _ => []
    | .reset => []

/-- The characters with escape sequences for the changes of style. -/
def ansi (t : StyledText) : List Char :=
  t.flatMap fun
    | .text cs => cs
    | .style s => escapeStyle s
    | .reset => escape ['0']

@[simp] theorem plain_append (s t : StyledText) : plain (s ++ t) = plain s ++ plain t := by
  simp [plain]

end StyledText

end PieSyntax
