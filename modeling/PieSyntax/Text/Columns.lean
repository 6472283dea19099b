/-
# Columns of a text

How many columns a text takes on a terminal.  Emoji and the ligatures of some scripts are drawn as a
unit, so a text is measured from its end: what follows a character decides how many columns the
character adds, and the character is what the one before it has to heed.
-/
import PieSyntax.Text.Width
import PieSyntax.Text.Emoji

namespace PieSyntax.Text

/-! ## Letters of ligatures -/

/-- The letters before which another is joined to a ligature. -/
inductive LigatureLetter where
  /-- The Hebrew letter lamed, after alef and a joiner. -/
  | lamed
  /-- The Buginese letter ya, after ya, the vowel sign i and a joiner. -/
  | ya
  /-- A consonant of Tifinagh, after a consonant and a joiner. -/
  | tifinagh
  /-- A lower tone of Lisu, after an upper one. -/
  | lisuTone
  /-- The letter i of Old Turkic, after the letter ec and a joiner. -/
  | oldTurkicI
  /-- A Khmer letter that is written below another, after the sign coeng. -/
  | coengLetter
deriving DecidableEq

/-- The letter alef of Arabic in its forms. -/
def isAlef (c : Char) : Bool :=
  c ∈ ['\u0622', '\u0623', '\u0625', '\u0627', '\u0671', '\u0672', '\u0673', '\u0675', '\u0773',
    '\u0774'] || (0x870 ≤ c.toNat && c.toNat ≤ 0x882)

/-- The letter lam of Arabic in its forms. -/
def isLam (c : Char) : Bool :=
  c ∈ ['\u0644', '\u06B5', '\u06B6', '\u06B7', '\u06B8', '\u076A', '\u08A6', '\u08C7']

/-- The consonants of Tifinagh. -/
def isTifinagh (c : Char) : Bool := (0x2D31 ≤ c.toNat && c.toNat ≤ 0x2D65) || c = '\u2D6F'

/-- The Khmer letters that are written below another after the sign coeng. -/
def isCoengLetter (c : Char) : Bool :=
  0x1780 ≤ c.toNat && c.toNat ≤ 0x17AF &&
    !([0x1783, 0x1788, 0x178D, 0x1794, 0x1799, 0x179A, 0x179E, 0x179F, 0x17A1, 0x17A3, 0x17A4, 0x17A5,
      0x17A6, 0x17A8, 0x17A9, 0x17AA, 0x17AD, 0x17AE].contains c.toNat)

/-- The letter that `c` is at the end of a ligature. -/
def ligatureLetter? (c : Char) : Option LigatureLetter :=
  if c = '\u05DC' then some .lamed
  else if c = '\u1A10' then some .ya
  else if isTifinagh c then some .tifinagh
  else if c = '\uA4FC' || c = '\uA4FD' then some .lisuTone
  else if c.toNat = 0x10C03 then some .oldTurkicI
  else if isCoengLetter c then some .coengLetter
  else none

/-- Marks that may stand inside a ligature without a trace. -/
def isLigatureTransparent (c : Char) : Bool :=
  c.toNat = 0x34F || (0x17B4 ≤ c.toNat && c.toNat ≤ 0x17B5) ||
    (0x180B ≤ c.toNat && c.toNat ≤ 0x180F && c.toNat ≠ 0x180E) ||
    (0xFE00 ≤ c.toNat && c.toNat ≤ 0xFE0F) || (0xE0100 ≤ c.toNat && c.toNat ≤ 0xE01EF)

/-- Characters for the layout of text that have no width and leave the letters around them joined. -/
def joiningFormatRanges : List CodeRange :=
  [⟨0xAD, 0xAD, 1⟩, ⟨0x61C, 0x61C, 1⟩, ⟨0x70F, 0x70F, 1⟩, ⟨0x200B, 0x200B, 1⟩, ⟨0x200E, 0x200F, 1⟩,
   ⟨0x202A, 0x202E, 1⟩, ⟨0x2060, 0x2064, 1⟩, ⟨0x206A, 0x206F, 1⟩, ⟨0xFEFF, 0xFEFF, 1⟩,
   ⟨0x1BCA0, 0x1BCA3, 1⟩, ⟨0x1D173, 0x1D17A, 1⟩, ⟨0xE0001, 0xE0001, 1⟩]

/-- Marks without a width between which Arabic letters stay joined: all that extend a grapheme but the
spacing marks and the sign that keeps letters apart, and the characters for layout. -/
def isJoiningTransparent (c : Char) : Bool :=
  charWidth c = 0 &&
    (extendsGrapheme c && c ≠ '\u200C' && !inTable spacingExtendRanges c ||
      inTable joiningFormatRanges c)

/-! ## Emoji -/

/-- The five skin tones. -/
def isSkinTone (c : Char) : Bool := 0x1F3FB ≤ c.toNat && c.toNat ≤ 0x1F3FF

/-- The letters of which two make a flag. -/
def isRegional (c : Char) : Bool := 0x1F1E6 ≤ c.toNat && c.toNat ≤ 0x1F1FF

/-- The letters of the tags that name a flag. -/
def isTagLetter (c : Char) : Bool := 0xE0061 ≤ c.toNat && c.toNat ≤ 0xE007A

/-- The digits of the tags that name a flag. -/
def isTagDigit (c : Char) : Bool := 0xE0030 ≤ c.toNat && c.toNat ≤ 0xE0039

/-- A selector for emoji has a meaning after `c`. -/
def takesEmojiSelector (c : Char) : Bool :=
  inTable emojiSequenceRanges c || inTable textSequenceRanges c || inTable ideographSequenceRanges c

/-- A selector for plain text makes `c` narrow. -/
def takesTextSelector (c : Char) : Bool := inTable textSequenceRanges c

/-- The quotation marks that a selector makes wide. -/
def takesQuoteSelector (c : Char) : Bool := c ∈ ['\u2018', '\u2019', '\u201C', '\u201D']

/-! ## What follows a character -/

/-- What a character needs to know of the text after it, selectors apart. -/
inductive Follower where
  /-- Nothing that changes a width. -/
  | plain
  /-- The Arabic letter alef. -/
  | alef
  /-- The last letter of a ligature; `joined` if a joiner stands before it. -/
  | ligature (letter : LigatureLetter) (joined : Bool)
  /-- The Buginese letter ya with a joiner and a vowel sign before it. -/
  | bugineseYa
  /-- A consonant of Tifinagh with its joiner before it. -/
  | tifinaghPair
  /-- The vowel sign e of Kirat Rai. -/
  | kiratRaiE
  /-- The vowel sign ai of Kirat Rai. -/
  | kiratRaiAi
  /-- One regional indicator. -/
  | regional
  /-- Regional indicators, two or more. -/
  | regionals
  /-- An emoji. -/
  | emoji
  /-- A skin tone. -/
  | skinTone
  /-- A joiner and then an emoji. -/
  | joinedEmoji
  /-- The frame of a key, then what `joinedEmoji` says. -/
  | joinedKey
  /-- One regional indicator, then what `joinedEmoji` says. -/
  | joinedRegional
  /-- Regional indicators, two or more, then what `joinedEmoji` says. -/
  | joinedRegionals (even : Bool)
  /-- Tag letters and the end of a tag, then what `joinedEmoji` says. -/
  | tagLetters (count : Nat)
  /-- Tag digits, then what `tagLetters` says. -/
  | tagDigits (count : Nat)
deriving DecidableEq

/-- A part of a ligature, from which selectors are looked through. -/
def Follower.isLigature : Follower → Bool
  | .alef | .ligature _ _ | .bugineseYa | .tifinaghPair => true
  | _ => false

/-- An emoji to which another may be joined that needs a selector to be one. -/
def Follower.joinsSelected : Follower → Bool
  | .joinedEmoji | .joinedKey => true
  | _ => false

/-- What follows a character: the selectors that stand right after it, and what is behind them. -/
structure Following where
  behind : Follower
  emojiSelector : Bool
  textSelector : Bool
  quoteSelector : Bool
deriving DecidableEq

/-- A follower without selectors. -/
def Follower.bare (f : Follower) : Following := ⟨f, false, false, false⟩

namespace Following

/-- `f` with the selector for emoji before it. -/
def selectEmoji (f : Following) : Following :=
  if f.behind.isLigature || f.behind.joinsSelected then { f with emojiSelector := true }
  else ⟨.plain, true, false, false⟩

/-- `f` with the selector for plain text before it. -/
def selectText (f : Following) : Following :=
  if f.behind.isLigature then { f with textSelector := true } else ⟨.plain, false, true, false⟩

/-- `f` with the selector for wide quotation marks before it. -/
def selectQuote (f : Following) : Following :=
  if f.behind.isLigature then { f with quoteSelector := true } else ⟨.plain, false, false, true⟩

/-- `f` for a character on which the selector for emoji has no effect. -/
def withoutEmojiSelector (f : Following) : Following :=
  if !f.emojiSelector then f
  else if f.behind.isLigature then { f with emojiSelector := false }
  else Follower.plain.bare

end Following

/-- What `c` itself is to the character before it. -/
def Follower.ofChar (c : Char) : Follower :=
  if isSkinTone c then .skinTone
  else if isRegional c then .regional
  else if inTable emojiPresentationRanges c then .emoji
  else if isAlef c then .alef
  else if c.toNat = 0x16D67 then .kiratRaiE
  else if c.toNat = 0x16D68 then .kiratRaiAi
  else match ligatureLetter? c with
    | some letter => .ligature letter false
    | none => .plain

/-! ## What a character adds -/

/-- The columns that `c` adds and what it is to the character before it, where nothing after it
matters. -/
def alone (c : Char) : Int × Follower := (charWidth c, .ofChar c)

/-- What `c` adds before a ligature letter. -/
def addToLetter (c : Char) (joined : Bool) : LigatureLetter → Int × Follower
  | .lamed => if joined && c = '\u05D0' then (0, .plain) else alone c
  | .ya => if joined && c = '\u1A17' then (0, .bugineseYa) else alone c
  | .tifinagh =>
    if c = '\u2D7F' then (1, .tifinaghPair)
    else if joined && isTifinagh c then (0, .plain)
    else alone c
  | .lisuTone => if 0xA4F8 ≤ c.toNat && c.toNat ≤ 0xA4FB then (0, .plain) else alone c
  | .oldTurkicI => if joined && c.toNat = 0x10C32 then (0, .plain) else alone c
  | .coengLetter => if c = '\u17D2' then (-1, .plain) else alone c

/-- What `c` adds before a joiner and an emoji. -/
def addToJoined (c : Char) : Int × Follower :=
  if isSkinTone c then (0, .skinTone)
  else if isRegional c then (1, .joinedRegional)
  else if c = '\u20E3' then (0, .joinedKey)
  else if c.toNat = 0xE007F then (0, .tagLetters 0)
  else if inTable emojiPresentationRanges c then (0, .emoji)
  else alone c

/-- What `c` adds before the tags of a flag that end with `letters` letters. -/
def addToTagLetters (c : Char) (letters : Nat) : Int × Follower :=
  if isTagLetter c && letters < 6 then (0, .tagLetters (letters + 1))
  else if isTagDigit c && letters ≤ 4 then (0, .tagDigits 1)
  else if c.toNat = 0x1F3F4 && 3 ≤ letters then (0, .emoji)
  else alone c

/-- What `c` adds before the tags of a flag that begin with `digits` digits. -/
def addToTagDigits (c : Char) (digits : Nat) : Int × Follower :=
  if isTagDigit c && digits < 3 then (0, .tagDigits (digits + 1))
  else if c.toNat = 0x1F3F4 && digits = 3 then (0, .emoji)
  else alone c

/-- What `c` adds before a follower without selectors. -/
def addBefore (c : Char) : Follower → Int × Follower
  | .plain => alone c
  | .alef =>
    if isLam c then (0, .plain)
    else if isJoiningTransparent c then (0, .alef)
    else alone c
  | .ligature letter joined => addToLetter c joined letter
  | .bugineseYa => if c = '\u1A15' then (0, .plain) else alone c
  | .tifinaghPair => if isTifinagh c then (-1, .plain) else alone c
  | .kiratRaiE =>
    if c.toNat = 0x16D63 || c.toNat = 0x16D69 then (0, .plain)
    else if c.toNat = 0x16D67 then (0, .kiratRaiAi)
    else if c.toNat = 0x16D68 then (1, .kiratRaiE)
    else alone c
  | .kiratRaiAi => if c.toNat = 0x16D63 then (0, .plain) else alone c
  | .regional => if isRegional c then (1, .regionals) else alone c
  | .regionals =>
    if isRegional c then (1, .regionals) else if c = '\u200D' then (0, .joinedEmoji) else alone c
  | .emoji => if c = '\u200D' then (0, .joinedEmoji) else alone c
  | .skinTone =>
    if c = '\u200D' then (0, .joinedEmoji)
    else if inTable emojiModifierBaseRanges c then (0, .emoji)
    else alone c
  | .joinedEmoji => addToJoined c
  | .joinedKey => alone c
  | .joinedRegional => if isRegional c then (-1, .joinedRegionals true) else alone c
  | .joinedRegionals even =>
    if c = '\u200D' then (0, .joinedEmoji)
    else if isRegional c then (if even then 3 else -1, .joinedRegionals !even)
    else alone c
  | .tagLetters count => addToTagLetters c count
  | .tagDigits count => addToTagDigits c count

/-- What `c` adds inside a ligature of which `f` is the part after it: a joiner and the marks that
leave no trace add nothing. -/
def addInside (c : Char) (f : Follower) : Int × Follower :=
  match f with
  | .ligature letter joined =>
    if c = '\u200D' then (0, .ligature letter true)
    else if isLigatureTransparent c then (0, .ligature letter joined)
    else addBefore c f
  | .bugineseYa | .tifinaghPair =>
    if c = '\u200D' || isLigatureTransparent c then (0, f) else addBefore c f
  | _ => addBefore c f

/-- What `c` adds before `f`, on whose selectors for emoji and for text `c` has been asked. -/
def addQuoted (c : Char) (f : Following) : Int × Following :=
  if c = '\uFE01' then (0, f.selectQuote)
  else if f.quoteSelector && takesQuoteSelector c then (2, Follower.plain.bare)
  else
    let (width, follower) := addInside c f.behind
    (width, follower.bare)

/-- What `c` adds before `f`, on whose selector for emoji `c` has been asked. -/
def addSelected (c : Char) (f : Following) : Int × Following :=
  if c.toNat ≤ 0xA0 then (1, Follower.plain.bare)
  else if c = '\uFE0F' then (0, f.selectEmoji)
  else if c = '\uFE0E' then (0, f.selectText)
  else if f.textSelector && takesTextSelector c then (1, Follower.plain.bare)
  else addQuoted c { f with textSelector := false }

/-- The columns that `c` adds to the text after it, and what the two are to the character before. -/
def addWidth (c : Char) (f : Following) : Int × Following :=
  if f.emojiSelector && takesEmojiSelector c then
    (if f.behind.joinsSelected then 0 else 2, Follower.emoji.bare)
  else addSelected c f.withoutEmojiSelector

/-- The columns that `text` takes. -/
def columns (text : List Char) : Nat :=
  (text.foldr (fun c (total, after) => ((addWidth c after).1 + total, (addWidth c after).2))
    ((0 : Int), Follower.plain.bare)).1.toNat

end PieSyntax.Text
