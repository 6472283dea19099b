/-
# JSON documents

JSON values with the two ways to write them: on one line, or one entry per line with an indentation
of two blanks.  A value is written before a given rest, so that no text is ever copied.
-/

namespace PieSyntax

/-- A JSON value; the entries of an object keep their order. -/
inductive Json where
  | text (characters : List Char)
  | number (value : Nat)
  | array (items : List Json)
  | object (entries : List (List Char × Json))

namespace Json

/-- Two lowercase hexadecimal digits. -/
def hexByte (n : Nat) : List Char := [Nat.digitChar (n / 16), Nat.digitChar (n % 16)]

/-- A character inside a JSON string: quotes, backslashes and control characters are escaped. -/
def escapeChar (c : Char) : List Char :=
  if c = '"' then ['\\', '"']
  else if c = '\\' then ['\\', '\\']
  else if c = '\n' then ['\\', 'n']
  else if c = '\r' then ['\\', 'r']
  else if c = '\t' then ['\\', 't']
  else if c = '\x08' then ['\\', 'b']
  else if c = '\x0c' then ['\\', 'f']
  else if c.toNat < 0x20 then "\\u00".toList ++ hexByte c.toNat
  else [c]

/-- A JSON string. -/
def string (text : List Char) : List Char := '"' :: text.flatMap escapeChar ++ ['"']

mutual

/-- The value on one line without blanks, before `rest`. -/
def writeCompact : Json → List Char → List Char
  | text cs, rest => string cs ++ rest
  | number n, rest => Nat.toDigits 10 n ++ rest
  | array items, rest => '[' :: writeCompactItems items (']' :: rest)
  | object entries, rest => '\x7b' :: writeCompactEntries entries ('\x7d' :: rest)

/-- The items of an array with commas between them, before `rest`. -/
def writeCompactItems : List Json → List Char → List Char
  | [], rest => rest
  | [item], rest => item.writeCompact rest
  | item :: more, rest => item.writeCompact (',' :: writeCompactItems more rest)

/-- The entries of an object with commas between them, before `rest`. -/
def writeCompactEntries : List (List Char × Json) → List Char → List Char
  | [], rest => rest
  | [(key, value)], rest => string key ++ ':' :: value.writeCompact rest
  | (key, value) :: more, rest =>
    string key ++ ':' :: value.writeCompact (',' :: writeCompactEntries more rest)

end

/-- The value on one line without blanks. -/
def compact (j : Json) : List Char := j.writeCompact []

/-- A new line with the given indentation. -/
def newLine (indent : Nat) : List Char := '\n' :: List.replicate (2 * indent) ' '

mutual

/-- The value with one entry per line, inside brackets at the given indentation, before `rest`. -/
def writePretty (indent : Nat) : Json → List Char → List Char
  | text cs, rest => string cs ++ rest
  | number n, rest => Nat.toDigits 10 n ++ rest
  | array [], rest => '[' :: ']' :: rest
  | array (item :: more), rest =>
    '[' :: newLine (indent + 1) ++ item.writePretty (indent + 1)
      (writePrettyItems (indent + 1) more (newLine indent ++ ']' :: rest))
  | object [], rest => '\x7b' :: '\x7d' :: rest
  | object ((key, value) :: more), rest =>
    '\x7b' :: newLine (indent + 1) ++ string key ++ ':' :: ' ' :: value.writePretty (indent + 1)
      (writePrettyEntries (indent + 1) more (newLine indent ++ '\x7d' :: rest))

/-- The items after the first, each on its own line, before `rest`. -/
def writePrettyItems (indent : Nat) : List Json → List Char → List Char
  | [], rest => rest
  | item :: more, rest =>
    ',' :: newLine indent ++ item.writePretty indent (writePrettyItems indent more rest)

/-- The entries after the first, each on its own line, before `rest`. -/
def writePrettyEntries (indent : Nat) : List (List Char × Json) → List Char → List Char
  | [], rest => rest
  | (key, value) :: more, rest =>
    ',' :: newLine indent ++ string key ++ ':' :: ' ' ::
      value.writePretty indent (writePrettyEntries indent more rest)

end

/-- The value with one entry per line. -/
def pretty (j : Json) : List Char := j.writePretty 0 []

end Json

end PieSyntax
