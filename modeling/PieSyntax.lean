import PieSyntax.Text.CodeRange
import PieSyntax.Text.Lowercase
import PieSyntax.Text.Uppercase
import PieSyntax.Text.OtherLetter
import PieSyntax.Text.DecimalDigit
import PieSyntax.Text.Symbol
import PieSyntax.Text.Blank
import PieSyntax.Text.NameChar
import PieSyntax.Text.Offset
import PieSyntax.Span
import PieSyntax.Token
import PieSyntax.Node
import PieSyntax.SyntaxError
import PieSyntax.Lexer
import PieSyntax.Settings
import PieSyntax.SyntaxTree
import PieSyntax.Parser
import PieSyntax.Text.Width
import PieSyntax.Text.Columns
import PieSyntax.Text.Quoted
import PieSyntax.Styled
import PieSyntax.Node.Sexp
import PieSyntax.Node.Outline
import PieSyntax.Node.View
import PieSyntax.Listing
import PieSyntax.Json
import PieSyntax.Node.Json
import PieSyntax.Yaml.Characters
import PieSyntax.Yaml.Place
import PieSyntax.Yaml.Property
import PieSyntax.Yaml.Directive
import PieSyntax.Yaml.Scalar
import PieSyntax.Yaml.Mapping
import PieSyntax.Yaml.Document
import PieSyntax.Settings.Reading
import PieSyntax.Failure
import PieSyntax.Text.Lines
import PieSyntax.Effect
import PieSyntax.Session
import PieSyntax.Status
import PieSyntax.Path
import PieSyntax.FileTree
import PieSyntax.FileSystem
import PieSyntax.Discovery
import PieSyntax.Check
import PieSyntax.Arguments
import PieSyntax.Arguments.Reading
import PieSyntax.History
import PieSyntax.Terminal
import PieSyntax.CommandLine
import PieSyntax.Main
import PieSyntax.Proofs.Step
import PieSyntax.Proofs.Scan
import PieSyntax.Proofs.Pieces
import PieSyntax.Proofs.Agreement
import PieSyntax.Proofs.Lossless
import PieSyntax.Proofs.Spelling
import PieSyntax.Proofs.Reading
import PieSyntax.Proofs.Grammar
import PieSyntax.Proofs.Language
import PieSyntax.Proofs.Gaps
import PieSyntax.Proofs.Relocation
import PieSyntax.Proofs.Continuation
import PieSyntax.Proofs.Concatenation
import PieSyntax.Proofs.Trimming
import PieSyntax.Proofs.Sessions
import PieSyntax.Proofs.Rendering
import PieSyntax.Proofs.Demotion
import PieSyntax.Proofs.Applied
import PieSyntax.Proofs.Holdings
import PieSyntax.Proofs.FunctionTypes
import PieSyntax.Proofs.Exchange
import PieSyntax.Proofs.FirstError
import PieSyntax.Proofs.DepthLimit
import PieSyntax.Proofs.Completion
import PieSyntax.Proofs.Joining
import PieSyntax.Proofs.Schema
import PieSyntax.Proofs.Parentheses
import PieSyntax.Proofs.ErrorPlaces
import PieSyntax.Proofs.Entries
import PieSyntax.Proofs.LexicalRules
import PieSyntax.Proofs.LexerCalls
import PieSyntax.Proofs.LineEnds
import PieSyntax.Proofs.TerminalSessions
import PieSyntax.Proofs.Unambiguity
import PieSyntax.Proofs.Subexpressions
import PieSyntax.Proofs.UniqueSexp
import PieSyntax.Proofs.Workers
import PieSyntax.Proofs.LineColumns
import PieSyntax.Proofs.Listings
import PieSyntax.Proofs.Outlines
import PieSyntax.Proofs.Paths
import PieSyntax.Proofs.FoundFiles
import PieSyntax.Proofs.Verdicts
import PieSyntax.Proofs.Descent
import PieSyntax.Proofs.DescentAgreement
import PieSyntax.Proofs.ProductionCalls
import PieSyntax.Proofs.FieldViews
