/-
# Errors of lexing and parsing

Reading a source stops at its first error.  An error is a cause with the spans it refers to; its
message, code, help and labels are functions of the cause.
-/
import PieSyntax.Token
import PieSyntax.Node

namespace PieSyntax

/-! ## Context -/

/-- What was being read when an error occurred. -/
inductive Production where
  | source
  | claim
  | define
  | lambda
  | lambdaArguments
  | application
  | functionType
  | expression
deriving DecidableEq

/-- The production in the words of a message. -/
def Production.describe : Production → String
  | source => "top-level form"
  | claim => "`claim'"
  | define => "`define'"
  | lambda => "`lambda'"
  | lambdaArguments => "`lambda' argument list"
  | application => "application"
  | functionType => "function type"
  | expression => "expression"

/-- Something that could have stood where an error occurred. -/
inductive Expected where
  | expression
  | identifier
  | leftParen
  | rightParen
  | topLevelForm
deriving DecidableEq

namespace Expected

/-- The alternative in the words of a message. -/
def describe : Expected → String
  | expression => "`expression'"
  | identifier => "`identifier'"
  | leftParen => "`('"
  | rightParen => "`)'"
  | topLevelForm => "`claim, define or expression'"

/-- All alternatives in the words of a message. -/
def describeAll : List Expected → String
  | [] => "nothing"
  | [single] => single.describe
  | many => "one of: " ++ ", ".intercalate (many.map describe)

end Expected

/-! ## Diagnostics -/

/-- A remark on a part of the source. -/
structure Label where
  text : String
  span : Span

/-- What a report shows of an error. -/
structure Diagnostic where
  message : String
  code : String
  help : Option String
  labels : List Label

/-! ## Errors -/

/-- Text that is no token. -/
inductive LexError where
  | unrecognizedCharacter (character : Char) (span : Span)
  | incompleteAtom (span : Span)
deriving DecidableEq

namespace LexError

/-- The place of the error. -/
def span : LexError → Span
  | unrecognizedCharacter _ s => s
  | incompleteAtom s => s

/-- What a report shows of the error. -/
def diagnostic : LexError → Diagnostic
  | unrecognizedCharacter c s =>
    { message := "Unrecognized character `" ++ c.toString ++ "'"
      code := "pie::lex::unrecognized_character"
      help := some ("identifiers start with a letter, a digit or a symbol; " ++
        "`\\' is only valid right after `('")
      labels := [⟨"cannot start a token", s⟩] }
  | incompleteAtom s =>
    { message := "Incomplete atom"
      code := "pie::lex::incomplete_atom"
      help := some "a quote must be immediately followed by a name, as in 'nil"
      labels := [⟨"quote without a name", s⟩] }

end LexError

/-- Tokens that form no program. -/
inductive ParseError where
  /-- No alternative accepts the token described by `found`. -/
  | unexpectedToken (found : List Char) (expected : List Expected) (context : Production)
      (span : Span)
  /-- The input ends inside the form whose parenthesis is at `opening`. -/
  | missingCloseParen (context : Production) (expected : List Expected) (opening : Span)
      (span : Span)
  /-- A further expression stands where the form must close. -/
  | extraExpression (context : Production) (span : Span)
  /-- The form closes before its expression. -/
  | missingExpression (context : Production) (span : Span)
  /-- An argument of a lambda is no identifier. -/
  | nonIdentifierArgument (found : NodeKind) (span : Span)
  /-- More forms are open than the limit allows. -/
  | depthExceeded (limit : Nat) (span : Span)
deriving DecidableEq

namespace ParseError

/-- The place of the error. -/
def span : ParseError → Span
  | unexpectedToken _ _ _ s => s
  | missingCloseParen _ _ _ s => s
  | extraExpression _ s => s
  | missingExpression _ s => s
  | nonIdentifierArgument _ s => s
  | depthExceeded _ s => s

/-- What was being read. -/
def context : ParseError → Production
  | unexpectedToken _ _ c _ => c
  | missingCloseParen c _ _ _ => c
  | extraExpression c _ => c
  | missingExpression c _ => c
  | nonIdentifierArgument _ _ => .lambdaArguments
  | depthExceeded _ _ => .expression

/-- What a report shows of the error. -/
def diagnostic : ParseError → Diagnostic
  | unexpectedToken found expected context s =>
    { message := "Unexpected " ++ String.ofList found ++ " in " ++ context.describe
      code := "pie::parse::unexpected_token"
      help := some ("expected " ++ Expected.describeAll expected)
      labels := [⟨"here", s⟩] }
  | missingCloseParen context expected opening s =>
    { message := "Missing `)' closing " ++ context.describe
      code := "pie::parse::missing_close_paren"
      help := some ("input ended while " ++ Expected.describeAll expected ++ " was expected")
      labels := [⟨"this form is never closed", opening⟩, ⟨"input ends here", s⟩] }
  | extraExpression context s =>
    { message := "Too many expressions in " ++ context.describe
      code := "pie::parse::extra_expression"
      help := some ("claim, define and lambda take exactly one expression after their name " ++
        "or argument list")
      labels := [⟨"unexpected extra expression", s⟩] }
  | missingExpression context s =>
    { message := context.describe ++ " is missing its expression"
      code := "pie::parse::missing_expression"
      help := none
      labels := [⟨"expected an expression before this", s⟩] }
  | nonIdentifierArgument found s =>
    { message := "Lambda arguments must be identifiers, found " ++ String.ofList found.name
      code := "pie::parse::non_identifier_argument"
      help := some "argument names start with a lowercase letter, a digit or a symbol"
      labels := [⟨"not an identifier", s⟩] }
  | depthExceeded limit s =>
    { message := "Nesting deeper than " ++ toString limit ++ " forms"
      code := "pie::parse::depth_exceeded"
      help := some "raise the limit with --max-depth or `max_depth' in the configuration"
      labels := [⟨"too deeply nested", s⟩] }

end ParseError

/-- The error that ends the reading of a source. -/
inductive SyntaxError where
  | lexical (error : LexError)
  | grammatical (error : ParseError)
deriving DecidableEq

namespace SyntaxError

/-- The place of the error. -/
def span : SyntaxError → Span
  | lexical e => e.span
  | grammatical e => e.span

/-- What a report shows of the error. -/
def diagnostic : SyntaxError → Diagnostic
  | lexical e => e.diagnostic
  | grammatical e => e.diagnostic

/-- Whether the input ended inside an open form. -/
def isIncomplete : SyntaxError → Bool
  | grammatical (.missingCloseParen ..) => true
  | _ => false

end SyntaxError

end PieSyntax
