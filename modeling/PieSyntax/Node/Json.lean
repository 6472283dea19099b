/-
# Trees as JSON

The JSON form of spans, tokens, nodes and whole trees.
-/
import PieSyntax.Json
import PieSyntax.SyntaxTree

namespace PieSyntax

/-- The two offsets. -/
def Span.json (s : Span) : Json :=
  .object [("start".toList, .number s.start), ("end".toList, .number s.stop)]

/-- The name of the class; a keyword as an object with its name. -/
def TokenKind.json : TokenKind → Json
  | identifier => .text "Variable".toList
  | typeIdentifier => .text "TypeIdentifier".toList
  | atom => .text "Atom".toList
  | keyword word => .object [("Keyword".toList, .text (keywordName word))]
  | leftParen => .text "LeftParen".toList
  | rightParen => .text "RightParen".toList
  | comment => .text "Comment".toList
  | endOfInput => .text "Eof".toList
where
  /-- The name of a keyword. -/
  keywordName : Keyword → List Char
    | .claim => "Claim".toList
    | .define => "Define".toList
    | .lambda => "Lambda".toList
    | .arrow => "Arrow".toList

/-- The name of the kind. -/
def TriviaKind.json : TriviaKind → Json
  | blank => .text "Whitespace".toList
  | comment => .text "Comment".toList

/-- Kind, text and span. -/
def Trivia.json (t : Trivia) : Json :=
  .object [("kind".toList, t.kind.json), ("text".toList, .text t.text), ("span".toList, t.span.json)]

/-- Kind, text, span and the trivia before the token. -/
def Token.json (t : Token) : Json :=
  .object [("kind".toList, t.kind.json), ("text".toList, .text t.text), ("span".toList, t.span.json),
    ("leading_trivia".toList, .array (t.leading.map Trivia.json))]

namespace Node

/-- A list under a key, unless it is empty. -/
def entryUnlessEmpty (key : String) (items : List Json) : List (List Char × Json) :=
  if items.isEmpty then [] else [(key.toList, .array items)]

/-- A filled field and the index of the child that fills it. -/
def fieldJson (entry : Field × Nat) : Json := .array [.text entry.1.name, .number entry.2]

mutual

/-- Kind and span, the text of a leaf, and the children and filled fields if there are any. -/
def json : Node → Json
  | leaf kind span text =>
    .object [("kind".toList, .text kind.name), ("span".toList, span.json), ("text".toList, .text text)]
  | form kind span children =>
    .object ([("kind".toList, .text kind.name), ("span".toList, span.json)] ++
      entryUnlessEmpty "children" (jsonAll children) ++
      entryUnlessEmpty "fields" ((form kind span children).fields.map fieldJson))

/-- The children alone. -/
def jsonAll : List (Option Field × Node) → List Json
  | [] => []
  | (_, child) :: rest => child.json :: jsonAll rest

end

end Node

/-- The root, the tokens and the trivia after them. -/
def SyntaxTree.json (t : SyntaxTree) : Json :=
  .object [("root".toList, t.root.json), ("tokens".toList, .array (t.tokens.map Token.json)),
    ("trailing_trivia".toList, .array (t.trailing.map Trivia.json))]

end PieSyntax
