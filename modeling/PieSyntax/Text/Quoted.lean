/-
# Quoted text

Text between double quotes, as trees show the text of a leaf.  Quotes, backslashes, control
characters and letters that are never seen are escaped, so that the text ends at the first quote
without a backslash, never leaves its line and shows all that it holds.
-/

namespace PieSyntax.Text

/-- The number of a character between braces, in hexadecimal. -/
def escapeCode (c : Char) : List Char :=
  "\\u\x7b".toList ++ Nat.toDigits 16 c.toNat ++ ['\x7d']

/-- The fillers of Hangul: letters that stand for an absent one and are drawn as nothing. -/
def isFiller (c : Char) : Bool := c ∈ ['\u115F', '\u1160', '\u3164', '\uFFA0']

/-- The written form of one character between quotes. -/
def quoteChar (c : Char) : List Char :=
  if c = '"' then ['\\', '"']
  else if c = '\\' then ['\\', '\\']
  else if c = '\n' then ['\\', 'n']
  else if c = '\r' then ['\\', 'r']
  else if c = '\t' then ['\\', 't']
  else if c = Char.ofNat 0 then ['\\', '0']
  else if c.toNat < 0x20 || c.toNat = 0x7F || isFiller c then escapeCode c
  else [c]

/-- `text` between quotes. -/
def quoted (text : List Char) : List Char := '"' :: text.flatMap quoteChar ++ ['"']

end PieSyntax.Text
