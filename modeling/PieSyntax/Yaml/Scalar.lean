/-
# Scalars

The scalars of YAML: plain ones on one line, quoted ones, and those written as a block of lines.
-/
import PieSyntax.Yaml.Place

namespace PieSyntax.Yaml

/-- How a scalar is written. -/
inductive ScalarStyle where
  | plain
  | quoted
  | literal
  | folded
deriving DecidableEq

/-- A scalar with the tag in front of it, if there is one. -/
structure Scalar where
  style : ScalarStyle
  tag : Option (List Char)
  text : List Char

/-! ## Scalars on a line -/

/-- The run of a plain scalar on one line, and the text after it. -/
def plainRun (flow afterSpace : Bool) : List Char → List Char × List Char
  | [] => ([], [])
  | c :: rest =>
    if c = '\n' || (c = '#' && afterSpace) || (flow && isFlowMark c) ||
        (c = ':' && (endsWord rest || (flow && (rest.head?.any isFlowMark)))) then ([], c :: rest)
    else
      let more := plainRun flow (isSpace c) rest
      (c :: more.1, more.2)

/-- Whether a plain scalar can begin `text`. -/
def startsPlain (flow : Bool) : List Char → Bool
  | [] => false
  | c :: rest =>
    if c = '-' then !endsWord rest
    else if c = '?' || c = ':' then !flow && !endsWord rest
    else !(endsWord [c] || isFlowMark c || c ∈ "#&*!|>'\"%@`".toList)

/-- The text of a single-quoted scalar after its quote, and the text behind it. -/
def singleQuoted : List Char → Option (List Char × List Char)
  | [] => none
  | '\'' :: '\'' :: rest => (singleQuoted rest).map fun p => ('\'' :: p.1, p.2)
  | c :: rest => if c = '\'' then some ([], rest) else (singleQuoted rest).map fun p => (c :: p.1, p.2)

/-- The character that a one-letter escape stands for. -/
def escaped? (c : Char) : Option Char :=
  ([('0', 0x0), ('a', 0x7), ('b', 0x8), ('t', 0x9), ('\t', 0x9), ('n', 0xA), ('v', 0xB), ('f', 0xC),
    ('r', 0xD), ('e', 0x1B), (' ', 0x20), ('"', 0x22), ('/', 0x2F), ('\\', 0x5C), ('N', 0x85),
    ('_', 0xA0), ('L', 0x2028), ('P', 0x2029)].lookup c).map Char.ofNat

/-- The number of digits in a numeric escape. -/
def escapeLength? (c : Char) : Option Nat := [('x', 2), ('u', 4), ('U', 8)].lookup c

/-- What is still to be passed over inside a double-quoted scalar. -/
inductive Skip where
  /-- Nothing. -/
  | nothing
  /-- The spaces at the front of a line, after an escaped line feed. -/
  | spaces
  /-- The digits of a numeric escape. -/
  | digits (count : Nat)

/-- The text of a double-quoted scalar after its quote, and the text behind it. -/
def doubleQuoted : Skip → List Char → Option (List Char × List Char)
  | _, [] => none
  | .digits (n + 1), _ :: rest => doubleQuoted (.digits n) rest
  | _, '\\' :: '\n' :: rest => doubleQuoted .spaces rest
  | _, '\\' :: c :: rest =>
    match escaped? c with
    | some d => (doubleQuoted .nothing rest).map fun p => (d :: p.1, p.2)
    | none => do
      let count ← escapeLength? c
      let n ← if rest.length < count then none else hexNumber? (rest.take count)
      if h : n.isValidChar then
        (doubleQuoted (.digits count) rest).map fun p => (Char.ofNatAux n h :: p.1, p.2)
      else none
  | skip, c :: rest =>
    if c = '"' then some ([], rest)
    else
      match skip with
      | .spaces =>
        if isSpace c then doubleQuoted .spaces rest
        else (doubleQuoted .nothing rest).map fun p => (c :: p.1, p.2)
      | _ => (doubleQuoted .nothing rest).map fun p => (c :: p.1, p.2)

/-- A plain or quoted scalar at the front of `text`, and the text behind it. -/
def inlineScalar? (flow : Bool) (text : List Char) :
    Option (ScalarStyle × List Char × List Char) :=
  match text with
  | '\'' :: rest => (singleQuoted rest).map fun p => (.quoted, p.1, p.2)
  | '"' :: rest => (doubleQuoted .nothing rest).map fun p => (.quoted, p.1, p.2)
  | _ =>
    if startsPlain flow text then
      let run := plainRun flow false text
      some (.plain, (run.1.reverse.dropWhile isSpace).reverse, run.2)
    else none

/-! ## Block scalars -/

/-- What becomes of the line feeds at the end of a block scalar. -/
inductive Chomping where
  | strip
  | clip
  | keep
deriving DecidableEq

/-- The lines of `text`; what stands after the last line feed is a line of its own. -/
def linesOf : List Char → List (List Char)
  | [] => [[]]
  | c :: rest =>
    if c = '\n' then [] :: linesOf rest
    else
      match linesOf rest with
      | [] => [[c]]
      | line :: more => (c :: line) :: more

/-- Lines with line feeds between them. -/
def joinLines : List (List Char) → List Char
  | [] => []
  | [line] => line
  | line :: more => line ++ '\n' :: joinLines more

/-- Reads the indicators after `|` or `>`: an indentation and a chomping, in any order. -/
def blockHeader : List Char → Option Nat × Chomping × List Char
  | '+' :: rest => (digit? rest).elim (none, .keep, rest) fun d => (some d, .keep, rest.tail)
  | '-' :: rest => (digit? rest).elim (none, .strip, rest) fun d => (some d, .strip, rest.tail)
  | text =>
    match digit? text, text.tail with
    | none, _ => (none, .clip, text)
    | some d, '+' :: rest => (some d, .keep, rest)
    | some d, '-' :: rest => (some d, .strip, rest)
    | some d, rest => (some d, .clip, rest)
where
  /-- A digit other than zero at the front. -/
  digit? : List Char → Option Nat
    | c :: _ => if '1' ≤ c ∧ c ≤ '9' then some (c.toNat - '0'.toNat) else none
    | [] => none

/-- Whether a line holds spaces alone. -/
def isBlankLine (line : List Char) : Bool := line.all (· = ' ')

/-- The indentation of a line. -/
def indentOf (line : List Char) : Nat := (line.takeWhile (· = ' ')).length

/-- The indentation that the lines of a block scalar show: the widest of the blank lines in front and
of the first other line. -/
def shownIndent (lines : List (List Char)) : Nat :=
  ((lines.take ((lines.takeWhile isBlankLine).length + 1)).map indentOf).foldl max 0

/-- The text of a block scalar after its indicator, whose lines begin at column `floor` or behind, and
the text behind it. -/
def blockScalar? (floor : Nat) (text : List Char) : Option (List Char × List Char) :=
  let (indent, chomping, rest) := blockHeader text
  let header := rest.takeWhile (· != '\n')
  let comment := header.dropWhile isSpace
  if !(comment.isEmpty || comment.head? == some '#') then none
  else
    match rest.drop header.length with
    | [] => some ([], [])
    | _ :: body =>
      let lines := linesOf body
      let column := match indent with
        | some n => floor - 1 + n
        | none => max (shownIndent lines) floor
      let inside := lines.takeWhile fun l => isBlankLine l || column ≤ indentOf l
      let behind := lines.drop inside.length
      let kept := inside.map (·.drop column)
      let content := (kept.reverse.dropWhile (·.isEmpty)).reverse
      let feeds := kept.length - content.length
      let ended := !behind.isEmpty || 0 < feeds
      let tail := match chomping with
        | .strip => 0
        | .clip => if ended && !content.isEmpty then 1 else 0
        | .keep => if behind.isEmpty then feeds else feeds + 1
      some (joinLines content ++ List.replicate tail '\n', joinLines behind)

/-! ## All scalars -/

/-- A scalar in block style at the front of `text` with the tag `tag`, and the gap behind it. -/
def scalar? (floor : Nat) (tag : Option (List Char)) (text : List Char) :
    Option (Scalar × Place) :=
  match text with
  | '|' :: rest => (blockScalar? floor rest).map fun p => (⟨.literal, tag, p.1⟩, firstPlace p.2)
  | '>' :: rest => (blockScalar? floor rest).map fun p => (⟨.folded, tag, p.1⟩, firstPlace p.2)
  | _ => do
    let (style, value, behind) ← inlineScalar? false text
    match style, behind with
    | .plain, '\n' :: rest => return (⟨style, tag, value⟩, ← placeBehindPlain? floor 0 rest)
    | _, _ => return (⟨style, tag, value⟩, nextPlace false behind)

end PieSyntax.Yaml
