/-
# Syntax trees

A syntax tree keeps every token and all trivia of its source, so that the source can be written
again byte for byte.
-/
import PieSyntax.Token
import PieSyntax.Node

namespace PieSyntax

/-- The result of reading a whole source. -/
structure SyntaxTree where
  /-- The node of kind `source` over all forms. -/
  root : Node
  /-- The tokens in source order, without the end of the input. -/
  tokens : List Token
  /-- The trivia after the last token. -/
  trailing : List Trivia

namespace SyntaxTree

/-- The claims, definitions and expressions at top level. -/
def forms (t : SyntaxTree) : List Node := t.root.children

/-- All comments in source order. -/
def comments (t : SyntaxTree) : List Trivia :=
  (t.tokens.flatMap Token.leading ++ t.trailing).filter (·.kind = .comment)

/-- All tokens and trivia written out in order. -/
def source (t : SyntaxTree) : List Char :=
  t.tokens.flatMap Token.source ++ t.trailing.flatMap Trivia.text

end SyntaxTree

end PieSyntax
