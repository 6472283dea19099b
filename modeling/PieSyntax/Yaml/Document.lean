/-
# Documents

The YAML documents in which settings are written: one mapping from scalars to scalars, or nothing.
Documents of another form are refused, and so is a second document.
-/
import PieSyntax.Yaml.Directive
import PieSyntax.Yaml.Mapping

namespace PieSyntax.Yaml

/-- Passes over the markers that end a document.  Nothing but comments may follow. -/
def endsStream : Nat → Place → Bool
  | 0, _ => false
  | fuel + 1, p =>
    if p.rest.isEmpty then true
    else if p.atMarker '.' then
      let q := nextPlace false (p.rest.drop 3)
      (q.rest.isEmpty || q.atLineStart) && endsStream fuel q
    else false

/-- Passes over a scalar without text: a document that holds nothing else is empty. -/
def passEmptyScalar? (text : List Char) : Option Place :=
  (scalar? 1 none text).bind fun (value, p) => if value.text.isEmpty then some p else none

/-- Reads what a document holds behind the properties of its node, which begins at the place `front`
if the properties belong to a key, and the gap behind it. -/
def node? (handles : Handles) (front p : Place) : Option (List Entry × Place) :=
  let fuel := front.rest.length + 1
  if p.endsContent then some ([], p)
  else
    match p.rest with
    | '\x7b' :: rest => do
      let (entries, behind) ← flowEntries? handles fuel (nextPlace true rest).rest
      return (entries, nextPlace false behind)
    | text =>
      match passEmptyScalar? text with
      | some behind => some ([], behind)
      | none =>
        if front.atLineStart then blockEntries? handles front.column fuel front else none

/-- Reads the content of a document from its first token; `explicit` says that a marker stands before
it.  Properties belong to the whole content if a line ends behind them, else to the first key. -/
def content? (handles : Handles) (explicit : Bool) (p : Place) : Option (List Entry × Place) :=
  if p.endsContent then if explicit || p.rest.isEmpty then some ([], p) else none
  else do
    let (s, q) ← readProperty? handles false 0 {} p
    let (_, r) ← readProperty? handles false 0 s q
    node? handles (if r.atLineStart then r else if q.atLineStart then q else p) r

/-- The entries of the only document in `text`; a document without content has none. -/
def entries? (text : List Char) : Option (List Entry) := do
  let text := match text with
    | '\uFEFF' :: rest => rest
    | _ => text
  if text.all isPrintable then
    let text := unifyBreaks text
    let fuel := text.length + 1
    let (head, start) ← readDirectives? fuel {} (firstPlace text)
    let handles := head.handles ++ standardHandles
    let explicit := start.atMarker '-'
    let (entries, last) ←
      content? handles explicit (if explicit then nextPlace false (start.rest.drop 3) else start)
    if endsStream fuel last then some entries else none
  else none

end PieSyntax.Yaml
