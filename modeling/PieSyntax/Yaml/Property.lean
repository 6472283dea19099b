/-
# Tags and anchors

The properties that may stand before a node of a YAML document: a tag and an anchor, in any order
and at most one of each.  A tag is written with a handle, which stands for the first part of the tag;
directives at the head of the document may give handles a meaning.
-/
import PieSyntax.Yaml.Place

namespace PieSyntax.Yaml

/-! ## Characters of tags -/

/-- The characters of a tag.  Inside `!<` and `>`, and in a directive, the comma and the square
brackets belong to them. -/
def isTagChar (enclosed : Bool) (c : Char) : Bool :=
  isNameChar c || c ∈ ";/?:@&=+$.!~*'()".toList || (enclosed && c ∈ [',', '[', ']'])

/-- How many bytes a character takes whose first byte is `n`. -/
def encodedLength? (n : Nat) : Option Nat :=
  if n < 0x80 then some 1
  else if n / 0x20 = 6 then some 2
  else if n / 0x10 = 14 then some 3
  else if n / 8 = 30 then some 4
  else none

/-- Reads the characters of a tag as bytes, and the text behind them; `%` and two hexadecimal digits
write one byte.  The bytes of a character have to be written one after another, `owed` of them are
still missing. -/
def tagBytes? (enclosed : Bool) : Nat → List Char → Option (List UInt8 × List Char)
  | owed, '%' :: high :: low :: rest => do
    let n ← hexNumber? [high, low]
    let missing ← if owed = 0 then (encodedLength? n).map (· - 1)
      else if n / 0x40 = 2 then some (owed - 1) else none
    let (bytes, behind) ← tagBytes? enclosed missing rest
    return (UInt8.ofNat n :: bytes, behind)
  | owed, [] => if owed = 0 then some ([], []) else none
  | owed, c :: rest =>
    if owed ≠ 0 || c = '%' then none
    else if isTagChar enclosed c then do
      let (bytes, behind) ← tagBytes? enclosed 0 rest
      return (UInt8.ofNat c.toNat :: bytes, behind)
    else some ([], c :: rest)

/-- The text of a tag; bytes that are no text stand for no known tag. -/
def tagText (bytes : List UInt8) : List Char :=
  match String.fromUTF8? ⟨bytes.toArray⟩ with
  | some text => text.toList
  | none => []

/-! ## Tags -/

/-- What handles stand for. -/
abbrev Handles := List (List Char × List UInt8)

/-- The handles that need no directive: `!` stands for itself, and `!!` for the tags of YAML. -/
def standardHandles : Handles :=
  [(['!'], "!".toUTF8.toList), (['!', '!'], "tag:yaml.org,2002:".toUTF8.toList)]

/-- Reads a handle after its first exclamation mark, and the text behind it: a name between two
exclamation marks, or one alone. -/
def handle? (text : List Char) : Option (List Char × List Char) :=
  let name := text.takeWhile isNameChar
  match text.drop name.length with
  | '!' :: behind => some ('!' :: name ++ ['!'], behind)
  | _ => if name.isEmpty then some (['!'], text) else none

/-- Reads a tag after its first exclamation mark, and the text behind it. -/
def tag? (handles : Handles) (flow : Bool) (text : List Char) : Option (List Char × List Char) := do
  let (tag, behind) ← match text with
    | '<' :: rest => do
      let (bytes, behind) ← tagBytes? true 0 rest
      if !bytes.isEmpty && behind.head? == some '>' then some (tagText bytes, behind.tail) else none
    | _ =>
      match (handle? text).filter (·.1 != ['!']) with
      | some (handle, rest) => do
        let (bytes, behind) ← tagBytes? false 0 rest
        let first ← handles.lookup handle
        if bytes.isEmpty then none else some (tagText (first ++ bytes), behind)
      | none => do
        let (bytes, behind) ← tagBytes? false 0 text
        let first ← handles.lookup ['!']
        some (if bytes.isEmpty then ['!'] else tagText (first ++ bytes), behind)
  if endsWord behind || (flow && behind.head? == some ',') then some (tag, behind) else none

/-- Passes over the name of an anchor. -/
def passAnchor? (text : List Char) : Option (List Char) :=
  let name := text.takeWhile isNameChar
  let behind := text.drop name.length
  if !name.isEmpty && (endsWord behind || behind.head?.any ("?:,]\x7d%@`".toList.contains ·)) then
    some behind
  else none

/-! ## Properties -/

/-- The properties read so far. -/
structure Properties where
  tag : Option (List Char) := none
  anchored : Bool := false

/-- The tag of a scalar that is written out: the tag `!` says no more than that it is one. -/
def Properties.scalarTag (s : Properties) : Option (List Char) := s.tag.filter (· != ['!'])

/-- Reads a property at the place, if one stands there that is not there yet, and the gap behind it.
A line that begins before column `floor` belongs to another node. -/
def readProperty? (handles : Handles) (flow : Bool) (floor : Nat) (s : Properties) (p : Place) :
    Option (Properties × Place) :=
  if p.endsNode floor then some (s, p)
  else
    match p.rest with
    | '!' :: rest =>
      if s.tag.isSome then some (s, p)
      else do
        let (tag, behind) ← tag? handles flow rest
        return ({ s with tag := some tag }, nextPlace flow behind)
    | '&' :: rest =>
      if s.anchored then some (s, p)
      else do
        let behind ← passAnchor? rest
        return ({ s with anchored := true }, nextPlace flow behind)
    | _ => some (s, p)

/-- Reads the properties at the place, and the gap behind them. -/
def readProperties? (handles : Handles) (flow : Bool) (floor : Nat) (p : Place) :
    Option (Properties × Place) := do
  let (s, q) ← readProperty? handles flow floor {} p
  readProperty? handles flow floor s q

end PieSyntax.Yaml
