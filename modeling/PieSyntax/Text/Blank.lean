/-
# Blank characters

The property `White_Space` of the Unicode character database: the characters that separate tokens
and carry no meaning of their own.
-/
import PieSyntax.Text.CodeRange

namespace PieSyntax.Text

/-- The characters with the property `White_Space`. -/
def blankRanges : List CodeRange :=
  [⟨0x9, 0xD, 1⟩, ⟨0x20, 0x20, 1⟩, ⟨0x85, 0x85, 1⟩, ⟨0xA0, 0xA0, 1⟩, ⟨0x1680, 0x1680, 1⟩,
   ⟨0x2000, 0x200A, 1⟩, ⟨0x2028, 0x2029, 1⟩, ⟨0x202F, 0x202F, 1⟩, ⟨0x205F, 0x205F, 1⟩,
   ⟨0x3000, 0x3000, 1⟩]

/-- Whether `c` is blank. -/
def isBlank (c : Char) : Bool := inTable blankRanges c

/-- `text` without the blanks at its front. -/
def trimFront (text : List Char) : List Char := text.dropWhile isBlank

/-- `text` without the blanks at its end. -/
def trimBack (text : List Char) : List Char := (text.reverse.dropWhile isBlank).reverse

/-- `text` without the blanks at either end. -/
def trim (text : List Char) : List Char := trimBack (trimFront text)

end PieSyntax.Text
