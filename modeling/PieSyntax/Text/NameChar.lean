/-
# The characters of names

Names are runs of letters, decimal digits and symbols.  The first character decides what a name is:
a lowercase letter, a digit or a symbol begins a variable, an uppercase letter begins the name of a
type, and the remaining letters begin nothing.  Main statements: every character that may begin a
name may also stand inside one, and neither a blank nor one of the marks `(`, `)`, `'`, `;` and
`\` may.
-/
import PieSyntax.Text.Blank
import PieSyntax.Text.Lowercase
import PieSyntax.Text.Uppercase
import PieSyntax.Text.OtherLetter
import PieSyntax.Text.DecimalDigit
import PieSyntax.Text.Symbol

namespace PieSyntax.Text

/-- A lowercase letter. -/
def isLowercase (c : Char) : Bool := inTable lowercaseRanges c

/-- An uppercase letter. -/
def isUppercase (c : Char) : Bool := inTable uppercaseRanges c

/-- A letter of any case or of none. -/
def isLetter (c : Char) : Bool := isLowercase c || isUppercase c || inTable otherLetterRanges c

/-- A decimal digit of any script. -/
def isDecimalDigit (c : Char) : Bool := inTable decimalDigitRanges c

/-- A symbol, or punctuation that joins or quotes. -/
def isSymbol (c : Char) : Bool := inTable symbolRanges c

/-- A character that may stand inside a name. -/
def isNameBody (c : Char) : Bool := isLetter c || isDecimalDigit c || isSymbol c

/-- A character that begins a variable. -/
def isVariableStart (c : Char) : Bool := isLowercase c || isDecimalDigit c || isSymbol c

/-- A character that begins the name of a type. -/
def isTypeStart (c : Char) : Bool := isUppercase c

theorem isNameBody_of_isVariableStart {c : Char} (h : isVariableStart c = true) :
    isNameBody c = true := by
  simp only [isVariableStart, isNameBody, isLetter, Bool.or_eq_true] at h ⊢
  rcases h with (h | h) | h <;> simp [h]

theorem isNameBody_of_isTypeStart {c : Char} (h : isTypeStart c = true) : isNameBody c = true := by
  simp only [isTypeStart] at h
  simp [isNameBody, isLetter, h]

/-- The marks of the grammar stand in no name. -/
theorem isNameBody_mark {c : Char} (h : c ∈ ['(', ')', '\'', ';', '\\']) : isNameBody c = false := by
  simp only [List.mem_cons, List.not_mem_nil, or_false] at h
  rcases h with rfl | rfl | rfl | rfl | rfl <;> rfl

/-- The code points of the blanks. -/
def blankCodes : List Nat := blankRanges.flatMap fun r => List.range' r.first (r.last + 1 - r.first)

theorem toNat_mem_blankCodes {c : Char} (h : isBlank c = true) : c.toNat ∈ blankCodes := by
  obtain ⟨r, hr, hc⟩ := exists_covers_of_covered h
  simp only [CodeRange.covers, Bool.and_eq_true, decide_eq_true_eq] at hc
  refine List.mem_flatMap.2 ⟨r, hr, ?_⟩
  rw [List.mem_range'_1]
  omega

/-- No table of the characters of names covers a blank. -/
theorem covered_blankCodes : ∀ n ∈ blankCodes, ∀ table ∈ [lowercaseRanges, uppercaseRanges,
    otherLetterRanges, decimalDigitRanges, symbolRanges], covered n table = false := by
  decide +kernel

/-- Blanks stand in no name. -/
theorem isNameBody_blank {c : Char} (h : isBlank c = true) : isNameBody c = false := by
  have none := covered_blankCodes c.toNat (toNat_mem_blankCodes h)
  simp only [List.forall_mem_cons, List.not_mem_nil, false_implies, implies_true, and_true] at none
  simp [isNameBody, isLetter, isLowercase, isUppercase, isDecimalDigit, isSymbol, inTable, none]

end PieSyntax.Text
