/-
# Directives

The lines at the head of a YAML document that name the version of YAML and give meanings to the
handles of tags.
-/
import PieSyntax.Yaml.Property

namespace PieSyntax.Yaml

/-- A line at the head of a document. -/
inductive Directive where
  /-- The version of YAML, which has to be 1.1 or 1.2. -/
  | version
  /-- The meaning of a handle. -/
  | handle (name : List Char) (first : List UInt8)

/-- Reads a number of at most nine digits, and the text behind it. -/
def versionPart? (text : List Char) : Option (Nat × List Char) :=
  let digits := text.takeWhile Char.isDigit
  if digits.isEmpty || 9 < digits.length then none
  else
    some (digits.foldl (fun n d => n * 10 + (d.toNat - '0'.toNat)) 0, text.drop digits.length)

/-- Reads a directive after its percent sign, and the text behind it. -/
def directive? (text : List Char) : Option (Directive × List Char) :=
  let name := text.takeWhile isNameChar
  let rest := text.drop name.length
  let value := rest.dropWhile isSpace
  if !endsWord rest then none
  else if name = "YAML".toList then do
    let (major, rest) ← versionPart? value
    match rest with
    | '.' :: rest => do
      let (minor, behind) ← versionPart? rest
      if major = 1 && (minor = 1 || minor = 2) then some (.version, behind) else none
    | _ => none
  else if name = "TAG".toList then
    match value with
    | '!' :: rest => do
      let (handle, rest) ← handle? rest
      let (bytes, behind) ← tagBytes? true 0 (rest.dropWhile isSpace)
      if rest.head?.any isSpace && !bytes.isEmpty && endsWord behind then
        some (.handle handle bytes, behind)
      else none
    | _ => none
  else none

/-- The text after the line whose last word ends before `text`; only a comment may stand in that
line. -/
def restOfLine? (text : List Char) : Option (List Char) :=
  match text.dropWhile isSpace with
  | [] => some []
  | c :: rest =>
    if c = '\n' then some rest
    else if c = '#' then some ((rest.dropWhile (· != '\n')).drop 1)
    else none

/-- What the directives so far say: whether one of them names the version, and the handles. -/
structure Head where
  versioned : Bool := false
  handles : Handles := []

/-- The head with one more directive.  The version is named once at most, and so is a handle. -/
def Head.add? (head : Head) : Directive → Option Head
  | .version => if head.versioned then none else some { head with versioned := true }
  | .handle name first =>
    if (head.handles.lookup name).isSome then none
    else some { head with handles := (name, first) :: head.handles }

/-- Reads at most `fuel` directives; a document with directives has a marker. -/
def readDirectives? : Nat → Head → Place → Option (Head × Place)
  | 0, _, _ => none
  | fuel + 1, head, p =>
    match p.rest with
    | '%' :: rest =>
      if p.atLineStart && p.column == 0 then do
        let (directive, behind) ← directive? rest
        let next := passGap false ⟨false, true, true, 0⟩ (← restOfLine? behind)
        if next.rest.head? == some '%' || next.atMarker '-' then
          readDirectives? fuel (← head.add? directive) next
        else none
      else none
    | _ => some (head, p)

end PieSyntax.Yaml
