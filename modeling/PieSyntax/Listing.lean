/-
# Token listings

One token per line: its span, its text and its class, in columns as wide as their widest entry.
-/
import PieSyntax.Text.Columns
import PieSyntax.Token
import PieSyntax.Styled

namespace PieSyntax

/-- The class of a token as the listing shows it. -/
def TokenKind.listed : TokenKind → String
  | identifier => "variable"
  | typeIdentifier => "type-identifier"
  | atom => "atom"
  | keyword word => "keyword:" ++ word.name
  | leftParen => "("
  | rightParen => ")"
  | comment => "comment"
  | endOfInput => "eof"

/-- The style of the class in the listing. -/
def TokenKind.style : TokenKind → Style
  | keyword _ => { bold := true, colour := some .magenta }
  | typeIdentifier => { colour := some .yellow }
  | atom => { colour := some .green }
  | comment => { dimmed := true }
  | _ => {}

namespace Listing

/-- `text` filled up with blanks to `width` columns, and two more. -/
def pad (width : Nat) (text : List Char) : List Char :=
  text ++ List.replicate (width - Text.columns text + 2) ' '

/-- The widest of `texts` in columns. -/
def widest (texts : List (List Char)) : Nat := (texts.map Text.columns).foldl max 0

/-- The line for one token, given the widths of the columns for spans and texts. -/
def line (spanWidth textWidth : Nat) (t : Token) : StyledText :=
  [.style { dimmed := true }, .text (pad spanWidth t.span.render), .reset,
    .text (pad textWidth t.text), .style t.kind.style, .text t.kind.listed.toList, .reset,
    .text ['\n']]

end Listing

/-- The listing of `tokens`. -/
def listing (tokens : List Token) : StyledText :=
  let spanWidth := Listing.widest (tokens.map fun t => t.span.render)
  let textWidth := Listing.widest (tokens.map Token.text)
  tokens.flatMap (Listing.line spanWidth textWidth)

end PieSyntax
