/-
# Widths of characters

How many columns a character takes on a terminal when it stands alone.  Most take one; wide
characters take two, and characters drawn with their neighbours take none.  The properties are those
of version 18 of the Unicode character database.
-/
import PieSyntax.Text.GraphemeExtend
import PieSyntax.Text.EastAsianWide

namespace PieSyntax.Text

/-- Characters without a width of their own that extend nothing: those to be ignored by default, the
vowels and finals of composed Hangul, and signs drawn with the characters after them. -/
def zeroWidthRanges : List CodeRange :=
  [⟨0xAD, 0xAD, 1⟩, ⟨0x605, 0x605, 1⟩, ⟨0x61C, 0x61C, 1⟩, ⟨0x70F, 0x70F, 1⟩, ⟨0x890, 0x891, 1⟩,
   ⟨0x8E2, 0x8E2, 1⟩, ⟨0xD4E, 0xD4E, 1⟩, ⟨0x1160, 0x11FF, 1⟩, ⟨0x180E, 0x180E, 1⟩,
   ⟨0x200B, 0x200B, 1⟩, ⟨0x200D, 0x200F, 1⟩, ⟨0x202A, 0x202E, 1⟩, ⟨0x2060, 0x206F, 1⟩,
   ⟨0x3164, 0x3164, 1⟩, ⟨0xA8FA, 0xA8FA, 1⟩, ⟨0xD7B0, 0xD7C6, 1⟩, ⟨0xD7CB, 0xD7FB, 1⟩,
   ⟨0xFEFF, 0xFEFF, 1⟩, ⟨0xFFA0, 0xFFA0, 1⟩, ⟨0xFFF0, 0xFFF8, 1⟩, ⟨0x111C2, 0x111C3, 1⟩,
   ⟨0x113D1, 0x113D1, 1⟩, ⟨0x1193F, 0x1193F, 1⟩, ⟨0x11941, 0x11941, 1⟩, ⟨0x11A84, 0x11A89, 1⟩,
   ⟨0x11D46, 0x11D46, 1⟩, ⟨0x11F02, 0x11F02, 1⟩, ⟨0x1BCA0, 0x1BCA3, 1⟩, ⟨0x1D173, 0x1D17A, 1⟩,
   ⟨0xE0000, 0xE001F, 1⟩, ⟨0xE0080, 0xE00FF, 1⟩, ⟨0xE01F0, 0xE0FFF, 1⟩]

/-- Whether `c` is drawn with the character before it. -/
def extendsGrapheme (c : Char) : Bool := inTable graphemeExtendRanges c

/-- The columns of a character that stands alone.  The Tifinagh joiner and the halfwidth voicing marks
of Katakana are drawn although they extend a grapheme; the Khmer sign beyyal takes three columns, and
the Khmer vowel aa two. -/
def charWidth (c : Char) : Nat :=
  if c.toNat ≤ 0xA0 then 1
  else if c = '\u17D8' then 3
  else if c = '\u17A4' then 2
  else if c = '\u2D7F' || c = '\uFF9E' || c = '\uFF9F' then 1
  else if extendsGrapheme c || inTable zeroWidthRanges c then 0
  else if inTable wideRanges c then 2
  else 1

end PieSyntax.Text
