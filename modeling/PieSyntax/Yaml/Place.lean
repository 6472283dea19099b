/-
# Places between tokens

A YAML text is read along a list of characters.  The column of a character matters only at the front
of a line, so it is tracked there alone: a `Place` says whether a line begins before a token, and at
which column.
-/
import PieSyntax.Yaml.Characters

namespace PieSyntax.Yaml

/-- A place between two tokens: whether a line begins before it, its column in that line, and the
text after it. -/
structure Place where
  atLineStart : Bool
  column : Nat
  rest : List Char

/-- Where a gap scan stands. -/
structure Gap where
  inComment : Bool
  tabs : Bool
  atLineStart : Bool
  column : Nat

/-- Passes over spaces, comments and line feeds.  In block style a tab may not stand at the front of
a line. -/
def passGap (flow : Bool) (g : Gap) : List Char → Place
  | [] => ⟨g.atLineStart, g.column, []⟩
  | c :: rest =>
    if c = '\n' then passGap flow ⟨false, flow, true, 0⟩ rest
    else if g.inComment then passGap flow { g with column := g.column + 1 } rest
    else if c = ' ' || (c = '\t' && g.tabs) then passGap flow { g with column := g.column + 1 } rest
    else if c = '#' then passGap flow { g with inComment := true, column := g.column + 1 } rest
    else ⟨g.atLineStart, g.column, c :: rest⟩

/-- The next token after one on the same line. -/
def nextPlace (flow : Bool) (text : List Char) : Place := passGap flow ⟨false, true, false, 0⟩ text

/-- The next token in block style after the mark of an explicit key or value, behind which no tab
may stand. -/
def nextPlaceAfterMark (text : List Char) : Place := passGap false ⟨false, false, false, 0⟩ text

/-- The next token in block style from the front of a line on. -/
def firstPlace (text : List Char) : Place := passGap false ⟨false, false, true, 0⟩ text

/-- The next token in block style after a plain scalar that ends with its line, from column `column`
of a later line on.  From column `floor` on tabs may stand there, and a further word would belong to
the scalar: as no value of a setting holds a blank, such a scalar is refused. -/
def placeBehindPlain? (floor : Nat) : Nat → List Char → Option Place
  | column, [] => some ⟨true, column, []⟩
  | column, c :: rest =>
    if c = '\n' then placeBehindPlain? floor 0 rest
    else if c = ' ' || (c = '\t' && floor ≤ column) then placeBehindPlain? floor (column + 1) rest
    else if c = '\t' || (floor ≤ column && c ≠ '#') then none
    else some (passGap false ⟨false, false, true, column⟩ (c :: rest))

namespace Place

/-- Whether a document marker of the character `c` stands at the place. -/
def atMarker (p : Place) (c : Char) : Bool :=
  p.atLineStart && p.column == 0 && p.rest.take 3 == [c, c, c] && endsWord (p.rest.drop 3)

/-- Whether the content of the document ends at the place. -/
def endsContent (p : Place) : Bool := p.rest.isEmpty || p.atMarker '-' || p.atMarker '.'

/-- Whether a node whose lines begin at column `floor` or behind ends at the place. -/
def endsNode (p : Place) (floor : Nat) : Bool :=
  p.rest.isEmpty || (p.atLineStart && p.column < floor)

end Place

end PieSyntax.Yaml
