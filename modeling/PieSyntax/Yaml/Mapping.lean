/-
# Mappings

Mappings from scalars to scalars, in block or in flow style.  Other collections and aliases are
refused, as no setting takes them.
-/
import PieSyntax.Yaml.Property
import PieSyntax.Yaml.Scalar

namespace PieSyntax.Yaml

/-- A key and its value. -/
abbrev Entry := List Char × Scalar

/-! ## Keys on one line -/

/-- Reads a key without a mark in front, up to the colon behind it.  It is written on one line, the
colon within 1024 characters. -/
def simpleKey? (handles : Handles) (flow : Bool) (text : List Char) :
    Option (List Char × List Char) := do
  let (_, p) ← readProperties? handles flow 0 ⟨false, 0, text⟩
  let (_, key, behind) ← inlineScalar? flow p.rest
  match behind.dropWhile isSpace with
  | ':' :: value =>
    let written := text.take (text.length - value.length - 1)
    if written.length ≤ 1024 && !written.contains '\n' && (flow || endsWord value) then
      some (key, value)
    else none
  | _ => none

/-! ## Block style -/

/-- Reads the value at the place in a block mapping at column `indent`, and the gap behind it.
Where nothing is written, the value is an empty plain scalar with the tag in front of it. -/
def blockValue? (handles : Handles) (indent : Nat) (p : Place) : Option (Scalar × Place) := do
  let (s, q) ← readProperties? handles false (indent + 1) p
  if q.endsNode (indent + 1) then some (⟨.plain, s.tag, []⟩, q)
  else scalar? (indent + 1) s.scalarTag q.rest

/-- Reads an entry whose key has a question mark in front, after that mark. -/
def markedEntry? (handles : Handles) (indent : Nat) (text : List Char) :
    Option (Entry × Place) := do
  let (_, p) ← readProperties? handles false (indent + 1) (nextPlaceAfterMark text)
  if p.endsNode (indent + 1) then none
  else
    let (key, q) ← scalar? (indent + 1) none p.rest
    match q.rest with
    | ':' :: rest =>
      if q.atLineStart && q.column == indent && endsWord rest then do
        let (value, last) ← blockValue? handles indent (nextPlaceAfterMark rest)
        return ((key.text, value), last)
      else none
    | _ => none

/-- Reads an entry of a block mapping at column `indent`, and the gap behind it. -/
def blockEntry? (handles : Handles) (indent : Nat) (text : List Char) : Option (Entry × Place) := do
  if text.head? == some '?' && endsWord text.tail then markedEntry? handles indent text.tail
  else
    let (key, behind) ← simpleKey? handles false text
    let (value, last) ← blockValue? handles indent (nextPlace false behind)
    return ((key, value), last)

/-- Reads at most `fuel` entries of a block mapping at column `indent`, and the gap behind them. -/
def blockEntries? (handles : Handles) (indent : Nat) : Nat → Place → Option (List Entry × Place)
  | 0, _ => none
  | fuel + 1, p =>
    if p.endsContent then some ([], p)
    else if p.atLineStart && p.column == indent then do
      let (entry, next) ← blockEntry? handles indent p.rest
      let (entries, last) ← blockEntries? handles indent fuel next
      return (entry :: entries, last)
    else none

/-! ## Flow style -/

/-- Reads a key in a flow mapping, up to the colon behind it.  A key with a question mark in front may
take several lines. -/
def flowKey? (handles : Handles) (text : List Char) : Option (List Char × List Char) :=
  match text with
  | '?' :: rest => do
    let (_, p) ← readProperties? handles true 0 (nextPlace true rest)
    let (_, key, behind) ← inlineScalar? true p.rest
    match (nextPlace true behind).rest with
    | ':' :: value => some (key, value)
    | _ => none
  | _ => simpleKey? handles true text

/-- Reads one key and its value in a flow mapping, and the text behind them. -/
def flowEntry? (handles : Handles) (text : List Char) : Option (Entry × List Char) := do
  let (key, value) ← flowKey? handles text
  let (s, p) ← readProperties? handles true 0 (nextPlace true value)
  if p.rest.head? == some ',' || p.rest.head? == some '\x7d' then
    some ((key, ⟨.plain, s.tag, []⟩), p.rest)
  else
    let (style, text, behind) ← inlineScalar? true p.rest
    return ((key, ⟨style, s.scalarTag, text⟩), (nextPlace true behind).rest)

/-- Reads at most `fuel` entries of a flow mapping up to its closing brace, and the text behind it. -/
def flowEntries? (handles : Handles) : Nat → List Char → Option (List Entry × List Char)
  | 0, _ => none
  | fuel + 1, text =>
    match text with
    | '\x7d' :: rest => some ([], rest)
    | _ => do
      let (entry, behind) ← flowEntry? handles text
      match behind with
      | '\x7d' :: rest => return ([entry], rest)
      | ',' :: rest =>
        let (entries, last) ← flowEntries? handles fuel (nextPlace true rest).rest
        return (entry :: entries, last)
      | _ => none

end PieSyntax.Yaml
