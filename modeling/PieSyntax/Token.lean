/-
# Tokens

The words of the language and what stands between them.  Keywords are ordinary names everywhere but
right after an opening parenthesis; a keyword may have several spellings, and no two keywords share
one (`ofSpelling?_eq_some_iff`).
-/
import PieSyntax.Span

namespace PieSyntax

/-! ## Keywords -/

/-- The words that head a form of their own. -/
inductive Keyword where
  | claim
  | define
  | lambda
  | arrow
deriving DecidableEq

namespace Keyword

/-- Every keyword. -/
def all : List Keyword := [claim, define, lambda, arrow]

/-- The ways to write the keyword. -/
def spellings : Keyword → List (List Char)
  | claim => ["claim".toList]
  | define => ["define".toList]
  | lambda => ["\\".toList, "λ".toList, "lambda".toList]
  | arrow => ["->".toList, "→".toList]

/-- The keyword spelled `text`, if there is one. -/
def ofSpelling? (text : List Char) : Option Keyword :=
  all.find? fun k => decide (text ∈ k.spellings)

/-- The name used for the keyword in messages. -/
def name : Keyword → String
  | claim => "claim"
  | define => "define"
  | lambda => "lambda"
  | arrow => "->"

/-- No spelling belongs to two keywords. -/
theorem eq_of_mem_spellings {text : List Char} {j k : Keyword} (hj : text ∈ j.spellings)
    (hk : text ∈ k.spellings) : j = k := by
  cases j <;> cases k <;> simp_all [spellings] <;> grind

/-- A spelling belongs to one keyword. -/
theorem ofSpelling?_eq_some_iff {text : List Char} {k : Keyword} :
    ofSpelling? text = some k ↔ text ∈ k.spellings := by
  constructor
  · intro h
    simpa using List.find?_some h
  · intro h
    cases found : ofSpelling? text with
    | none =>
      have none := List.find?_eq_none.1 found k (by cases k <;> simp [all])
      simp [h] at none
    | some j =>
      have hj : text ∈ j.spellings := by simpa using List.find?_some found
      rw [eq_of_mem_spellings hj h]

end Keyword

/-! ## Tokens and trivia -/

/-- The classes of tokens. -/
inductive TokenKind where
  | identifier
  | typeIdentifier
  | atom
  | keyword (word : Keyword)
  | leftParen
  | rightParen
  | comment
  | endOfInput
deriving DecidableEq

namespace TokenKind

/-- The class in the words of a message. -/
def describe : TokenKind → String
  | identifier => "identifier"
  | typeIdentifier => "type identifier"
  | atom => "atom"
  | keyword word => "keyword `" ++ word.name ++ "'"
  | leftParen => "`('"
  | rightParen => "`)'"
  | comment => "comment"
  | endOfInput => "end of input"

/-- Whether a token of this class can begin an expression. -/
def startsExpression : TokenKind → Bool
  | atom | identifier | typeIdentifier | leftParen => true
  | _ => false

end TokenKind

/-- The text between tokens is blank or a comment. -/
inductive TriviaKind where
  | blank
  | comment
deriving DecidableEq

/-- A run of blanks, or one comment. -/
structure Trivia where
  kind : TriviaKind
  text : List Char
  span : Span
deriving DecidableEq

/-- A token and the trivia between it and the token before. -/
structure Token where
  kind : TokenKind
  text : List Char
  span : Span
  leading : List Trivia
deriving DecidableEq

namespace Token

/-- Whether the token marks the end of the input. -/
def isEnd (t : Token) : Bool := t.kind == .endOfInput

/-- The token as shown to a reader. -/
def display (t : Token) : List Char :=
  if t.isEnd then "end of input".toList else t.text

/-- The source text of the token, with the trivia before it. -/
def source (t : Token) : List Char :=
  t.leading.flatMap Trivia.text ++ t.text

end Token

end PieSyntax
