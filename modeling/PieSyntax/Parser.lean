/-
# Parsing

The grammar, where only the word right after a parenthesis may be a keyword:

    Source       := (Claim | Define | Expression)*
    Claim        := "(" "claim" Identifier Expression ")"
    Define       := "(" "define" Identifier Expression ")"
    Lambda       := "(" "lambda" "(" Identifier* ")" Expression ")"
    FunctionType := "(" "->" Expression Expression+ ")"
    Application  := "(" Expression Expression* ")"
    Expression   := Atom | Identifier | TypeIdentifier | Lambda | FunctionType | Application

A parser reads one token at a time.  It holds the forms that are open and, for each of them, the
place of the next expression; nothing is ever read twice, and the first token that fits nowhere ends
the parse.  The next token is not lexed before the parser has to look at it.  Main statement: no form
takes the end of the input (`Parser.kind_ne_of_read`), so that every parse ends.
-/
import PieSyntax.Lexer
import PieSyntax.Settings
import PieSyntax.SyntaxTree

namespace PieSyntax

/-! ## Open forms -/

/-- The production that makes forms of this kind. -/
def FormKind.production : FormKind → Production
  | source => .source
  | claim => .claim
  | define => .define
  | lambda => .lambda
  | application => .application
  | functionType => .functionType

/-- A form whose parenthesis is open, with the children read so far. -/
structure OpenForm where
  opening : Span
  node : NodeBuilder

namespace OpenForm

/-- The production of the form. -/
def production (f : OpenForm) : Production := f.node.kind.production

/-- The form with one more child. -/
def push (f : OpenForm) (field : Field) (child : Node) : OpenForm :=
  { f with node := f.node.push field child }

/-- The form closed by the parenthesis at `closing`. -/
def close (f : OpenForm) (closing : Span) : Node := f.node.finish (f.opening.join closing)

end OpenForm

/-- The place of the next expression in an open form. -/
inductive Slot where
  /-- One expression has to follow and fills `field`. -/
  | required (field : Field)
  /-- The function of an application. -/
  | function
  /-- Expressions may follow up to the closing parenthesis, and each fills `field`. -/
  | more (field : Field)
  /-- An argument of a lambda, in the list whose parenthesis is at `opening`. -/
  | argument (opening : Span)

namespace Slot

/-- What may stand in the place. -/
def expected : Slot → List Expected
  | required _ | function => [.expression]
  | more _ => [.expression, .rightParen]
  | argument _ => [.identifier, .rightParen]

/-- What is being read there, in the form `f`. -/
def context (f : OpenForm) : Slot → Production
  | argument _ => .lambdaArguments
  | _ => f.production

/-- The parentheses open there with the productions they belong to, the innermost first. -/
def openings (f : OpenForm) : Slot → List (Production × Span)
  | argument opening => [(.lambdaArguments, opening), (f.production, f.opening)]
  | _ => [(f.production, f.opening)]

/-- How many parentheses are open there. -/
def depth : Slot → Nat
  | argument _ => 2
  | _ => 1

/-- The parentheses of an open form are as many as the slot says. -/
theorem length_openings (f : OpenForm) (s : Slot) : (s.openings f).length = s.depth := by
  cases s <;> rfl

end Slot

/-- What is read next. -/
inductive Focus where
  /-- An expression in the innermost open form, or a form at top level if none is open. -/
  | expression
  /-- The word after the parenthesis at `opening`, which decides on the form. -/
  | head (opening : Span)
  /-- The name in a claim or a definition. -/
  | name (form : OpenForm)
  /-- The parenthesis before the arguments of a lambda. -/
  | parameters (form : OpenForm)
  /-- The parenthesis that closes a form. -/
  | close (form : OpenForm)

/-- The parentheses open in the focus itself. -/
def Focus.openings : Focus → List (Production × Span)
  | expression | head _ => []
  | name f | parameters f | close f => [(f.production, f.opening)]

/-! ## The parser -/

/-- A parse in progress. -/
structure Parser where
  /-- How many parentheses may be open. -/
  maxDepth : Nat
  /-- The root with the forms completed at top level. -/
  root : NodeBuilder
  /-- The tokens read. -/
  tokens : Array Token
  /-- The open forms around the focus, the innermost first. -/
  enclosing : List (OpenForm × Slot)
  /-- What is read next. -/
  focus : Focus

namespace Parser

/-- The parser before the first token. -/
def initial (maxDepth : Nat) : Parser := ⟨maxDepth, .empty .source, #[], [], .expression⟩

/-- The parentheses open with the productions they belong to, the innermost first.  A parenthesis
counts once the word after it is known. -/
def openings (p : Parser) : List (Production × Span) :=
  p.focus.openings ++ p.enclosing.flatMap fun (form, slot) => slot.openings form

/-- How many parentheses are open. -/
def depth (p : Parser) : Nat :=
  p.enclosing.foldl (fun n (_, slot) => n + slot.depth) p.focus.openings.length

/-- The depth counts the open parentheses. -/
theorem depth_eq_length_openings (p : Parser) : p.depth = p.openings.length := by
  have count : ∀ (forms : List (OpenForm × Slot)) (n : Nat),
      forms.foldl (fun n (_, slot) => n + slot.depth) n =
        n + (forms.flatMap fun (form, slot) => slot.openings form).length := by
    intro forms
    induction forms with
    | nil => simp
    | cons entry forms ih => intro n; simp [ih, Slot.length_openings]; omega
  rw [depth, openings, List.length_append, count]

/-- The mode in which the next token is lexed. -/
def mode (p : Parser) : LexMode :=
  match p.focus with
  | .head _ => if p.enclosing.isEmpty then .topLevelHead else .head
  | _ => .plain

/-- Whether no form is open. -/
def isIdle (p : Parser) : Bool :=
  match p.focus with
  | .expression => p.enclosing.isEmpty
  | _ => false

/-- The token `t` is read, and `focus` comes next. -/
def advance (p : Parser) (t : Token) (focus : Focus) : Parser :=
  { p with tokens := p.tokens.push t, focus := focus }

/-- The error for a token that fits nowhere.  The end of the input inside a form is always laid to
the innermost open parenthesis. -/
def reject (p : Parser) (t : Token) (expected : List Expected) (context : Production) :
    ParseError :=
  if t.isEnd then
    match p.openings with
    | (production, opening) :: _ => .missingCloseParen production expected opening t.span
    | [] => .unexpectedToken "end of input".toList expected context t.span
  else .unexpectedToken ('`' :: t.text ++ ['\'']) expected context t.span

/-- Refuses the parenthesis at `opening` if too many are open already. -/
def guardDepth (p : Parser) (opening : Span) : Except ParseError Unit :=
  if p.maxDepth ≤ p.depth then .error (.depthExceeded p.maxDepth opening) else .ok ()

/-- The next expression is read in the given place of `form`, which is open. -/
def enter (p : Parser) (form : OpenForm) (slot : Slot) : Parser :=
  { p with enclosing := (form, slot) :: p.enclosing, focus := .expression }

/-- Puts a complete node into the given place of the open form `form`, inside of which nothing else
is open. -/
def fill (p : Parser) (form : OpenForm) (node : Node) : Slot → Except ParseError Parser
  | .required .domain => .ok (p.enter (form.push .domain node) (.required .codomain))
  | .required .codomain => .ok (p.enter (form.push .codomain node) (.more .codomain))
  | .required field => .ok { p with focus := .close (form.push field node) }
  | .function => .ok (p.enter (form.push .function node) (.more .arguments))
  | .more field => .ok (p.enter (form.push field node) (.more field))
  | .argument opening =>
    if node.kind = .leaf .identifier then
      .ok (p.enter (form.push .arguments node) (.argument opening))
    else .error (.nonIdentifierArgument node.kind node.span)

/-- Puts a complete node into the innermost open form, or among the forms at top level. -/
def deliver (p : Parser) (node : Node) : Except ParseError Parser :=
  match p.enclosing with
  | [] => .ok { p with root := p.root.pushUnnamed node, focus := .expression }
  | (form, slot) :: outer => { p with enclosing := outer }.fill form node slot

/-- The kind of the leaf that a token makes, if it makes one. -/
def leafKind? : TokenKind → Option LeafKind
  | .atom => some .atom
  | .identifier => some .identifier
  | .typeIdentifier => some .typeIdentifier
  | _ => none

/-- Reads a token where an expression may begin. -/
def readExpression (p : Parser) (t : Token) : Except ParseError Parser :=
  match leafKind? t.kind with
  | some kind => (p.advance t .expression).deliver (.leaf kind t.span t.text)
  | none =>
    if t.kind = .leftParen then .ok (p.advance t (.head t.span))
    else
      match p.enclosing with
      | [] => .error (p.reject t [.topLevelForm] .source)
      | (form, slot) :: outer =>
        if t.kind = .rightParen then
          match slot with
          | .required _ => .error (.missingExpression form.production t.span)
          | .function => .error (p.reject t slot.expected (slot.context form))
          | .more _ =>
            { p.advance t .expression with enclosing := outer }.deliver (form.close t.span)
          | .argument _ =>
            .ok ({ p.advance t .expression with enclosing := outer }.enter form (.required .body))
        else .error (p.reject t slot.expected (slot.context form))

/-- Reads the word after the parenthesis at `opening`. -/
def readHead (p : Parser) (opening : Span) (t : Token) : Except ParseError Parser := do
  p.guardDepth opening
  match t.kind with
  | .keyword .claim => .ok (p.advance t (.name ⟨opening, .empty .claim⟩))
  | .keyword .define => .ok (p.advance t (.name ⟨opening, .empty .define⟩))
  | .keyword .lambda => .ok (p.advance t (.parameters ⟨opening, .empty .lambda⟩))
  | .keyword .arrow =>
    .ok ((p.advance t .expression).enter ⟨opening, .empty .functionType⟩ (.required .domain))
  | _ => (p.enter ⟨opening, .empty .application⟩ .function).readExpression t

/-- The field that the expression of a claim or a definition fills. -/
def valueField : FormKind → Field
  | .claim => .type
  | _ => .body

/-- Reads one token. -/
def read (p : Parser) (t : Token) : Except ParseError Parser :=
  match p.focus with
  | .expression => p.readExpression t
  | .head opening => p.readHead opening t
  | .name form =>
    if t.kind = .identifier then
      let named := form.push .identifier (.leaf .identifier t.span t.text)
      .ok ((p.advance t .expression).enter named (.required (valueField form.node.kind)))
    else .error (p.reject t [.identifier] form.production)
  | .parameters form =>
    if t.kind = .leftParen then do
      p.guardDepth t.span
      .ok ((p.advance t .expression).enter form (.argument t.span))
    else .error (p.reject t [.leftParen] form.production)
  | .close form =>
    if t.kind = .rightParen then (p.advance t .expression).deliver (form.close t.span)
    else if t.kind.startsExpression then .error (.extraExpression form.production t.span)
    else .error (p.reject t [.rightParen] form.production)

/-- No expression begins at the end of the input. -/
theorem readExpression_end {p : Parser} {t : Token} (ht : t.kind = .endOfInput) :
    ∃ e, p.readExpression t = .error e := by
  unfold readExpression
  simp only [ht, leafKind?, reduceCtorEq, if_false]
  split <;> exact ⟨_, rfl⟩

/-- No form begins at the end of the input. -/
theorem readHead_end {p : Parser} {opening : Span} {t : Token} (ht : t.kind = .endOfInput) :
    ∃ e, p.readHead opening t = .error e := by
  unfold readHead
  cases p.guardDepth opening with
  | error e => exact ⟨e, rfl⟩
  | ok =>
    simp only [ht]
    exact readExpression_end ht

/-- No form takes the end of the input. -/
theorem kind_ne_of_read {p q : Parser} {t : Token} (h : p.read t = .ok q) :
    t.kind ≠ .endOfInput := by
  intro ht
  have fails : ∃ e, p.read t = .error e := by
    unfold read
    split
    · exact readExpression_end ht
    · exact readHead_end ht
    · simp [ht]
    · simp [ht]
    · simp [ht, TokenKind.startsExpression]
  obtain ⟨e, he⟩ := fails
  rw [he] at h
  cases h

/-- The tree, when the end of the input `t` is reached and no form is open. -/
def tree (p : Parser) (t : Token) : SyntaxTree where
  root := p.root.finish ⟨0, t.span.stop⟩
  tokens := p.tokens.toList
  trailing := t.leading

/-- Reads tokens from `lx` up to the end of the input. -/
def run (p : Parser) (lx : Lexer) : Except SyntaxError SyntaxTree :=
  match _h : (lx.next p.mode).1 with
  | .error e => .error (.lexical e)
  | .ok t =>
    if p.isIdle && t.isEnd then .ok (p.tree t)
    else
      match _hr : p.read t with
      | .error e => .error (.grammatical e)
      | .ok q => q.run (lx.next p.mode).2
termination_by lx.cursor.rest.length
decreasing_by exact Lexer.rest_lt_of_next _h (kind_ne_of_read _hr)

end Parser

/-- Parses `source`. -/
def parse (settings : Settings) (source : List Char) : Except SyntaxError SyntaxTree :=
  (Parser.initial settings.maxDepth).run (.ofSource settings.arrows source)

end PieSyntax
