/-
# Lexing

A lexer is a cursor into the source.  Each call takes the trivia at the cursor and then the longest
token after it; the mode of the call says which keywords may stand there.  Main statements: a token
that is not the end of the input leaves less text to read (`Lexer.rest_lt_of_next`), so that every
source is tokenized after finitely many calls.
-/
import PieSyntax.Text.NameChar
import PieSyntax.SyntaxError

namespace PieSyntax

open Text

/-! ## Cursors and trivia -/

/-- A place in a source: its byte offset and the text from there on. -/
structure Cursor where
  offset : Nat
  rest : List Char
deriving DecidableEq

namespace Cursor

/-- The beginning of `source`. -/
def start (source : List Char) : Cursor := ⟨0, source⟩

/-- The cursor after the next `n` characters. -/
def skip (c : Cursor) (n : Nat) : Cursor := ⟨c.offset + byteLength (c.rest.take n), c.rest.drop n⟩

/-- The span of the next `n` characters. -/
def spanOf (c : Cursor) (n : Nat) : Span := ⟨c.offset, (c.skip n).offset⟩

/-- The kind and the number of characters of the trivia that begins `text`, if trivia does: a run of
blanks, or a comment up to the end of its line. -/
def trivia? : List Char → Option (TriviaKind × Nat)
  | [] => none
  | x :: rest =>
    if isBlank x then some (.blank, (rest.takeWhile isBlank).length + 1)
    else if x = ';' then
      some (.comment, (rest.takeWhile fun y => y != '\n' && y != '\r').length + 1)
    else none

/-- Trivia have at least one character. -/
theorem trivia?_pos {text : List Char} {kind : TriviaKind} {n : Nat}
    (h : trivia? text = some (kind, n)) : 0 < n ∧ text ≠ [] := by
  unfold trivia? at h
  split at h
  · simp at h
  · split at h
    · simp only [Option.some.injEq, Prod.mk.injEq] at h
      exact ⟨by omega, by simp⟩
    · split at h
      · simp only [Option.some.injEq, Prod.mk.injEq] at h
        exact ⟨by omega, by simp⟩
      · simp at h

theorem rest_skip_lt {c : Cursor} {n : Nat} (hn : 0 < n) (hc : c.rest ≠ []) :
    (c.skip n).rest.length < c.rest.length := by
  have := List.length_pos_iff.2 hc
  simp only [skip, List.length_drop]
  omega

/-- Takes all trivia at the cursor. -/
def skipTrivia (c : Cursor) : List Trivia × Cursor :=
  match _h : trivia? c.rest with
  | none => ([], c)
  | some (kind, n) =>
    let more := skipTrivia (c.skip n)
    (⟨kind, c.rest.take n, c.spanOf n⟩ :: more.1, more.2)
termination_by c.rest.length
decreasing_by exact rest_skip_lt (trivia?_pos _h).1 (trivia?_pos _h).2

theorem skipTrivia_of_none {c : Cursor} (h : trivia? c.rest = none) : c.skipTrivia = ([], c) := by
  rw [skipTrivia]
  split
  · rfl
  · simp_all

theorem skipTrivia_of_some {c : Cursor} {kind : TriviaKind} {n : Nat}
    (h : trivia? c.rest = some (kind, n)) :
    c.skipTrivia = (⟨kind, c.rest.take n, c.spanOf n⟩ :: (c.skip n).skipTrivia.1,
      (c.skip n).skipTrivia.2) := by
  rw [skipTrivia]
  split
  · simp_all
  · simp_all

/-- Skipping trivia adds no text. -/
theorem rest_skipTrivia_le (c : Cursor) : c.skipTrivia.2.rest.length ≤ c.rest.length := by
  fun_induction skipTrivia c with
  | case1 => exact Nat.le_refl _
  | case2 c kind n h more ih =>
    have := rest_skip_lt (trivia?_pos h).1 (trivia?_pos h).2
    exact Nat.le_trans ih (by omega)

end Cursor

/-! ## Modes -/

/-- What the next token may be. -/
inductive LexMode where
  /-- Every name is a name. -/
  | plain
  /-- Right after a nested parenthesis: `lambda`, and the arrow where it is a keyword. -/
  | head
  /-- Right after a parenthesis at top level: `claim` and `define` as well. -/
  | topLevelHead
deriving DecidableEq

/-- Whether a spelling of `word` is a keyword in this mode; `arrows` says whether the arrow ever
is. -/
def LexMode.allows (arrows : Bool) : LexMode → Keyword → Bool
  | .plain, _ => false
  | _, .lambda => true
  | _, .arrow => arrows
  | .topLevelHead, .claim | .topLevelHead, .define => true
  | .head, .claim | .head, .define => false

/-! ## Lexemes -/

/-- Why no token begins at a character. -/
inductive LexFault where
  | unrecognized (character : Char)
  | incompleteAtom
deriving DecidableEq

/-- The class of a run of name characters that begins like a variable. -/
def classifyName (arrows : Bool) (mode : LexMode) (run : List Char) : TokenKind :=
  match Keyword.ofSpelling? run with
  | some word => if mode.allows arrows word then .keyword word else .identifier
  | none => .identifier

/-- The class and the number of characters of the token that begins `text`, which does not begin
with trivia. -/
def lexeme (arrows : Bool) (mode : LexMode) : List Char → Except LexFault (TokenKind × Nat)
  | [] => .ok (.endOfInput, 0)
  | c :: rest =>
    if c = '(' then .ok (.leftParen, 1)
    else if c = ')' then .ok (.rightParen, 1)
    else if c = '\'' then
      match rest.takeWhile isNameBody with
      | [] => .error .incompleteAtom
      | run => .ok (.atom, run.length + 1)
    else if c = '\\' && mode.allows arrows .lambda then .ok (.keyword .lambda, 1)
    else
      let run := c :: rest.takeWhile isNameBody
      if isVariableStart c then .ok (classifyName arrows mode run, run.length)
      else if isTypeStart c then .ok (.typeIdentifier, run.length)
      else .error (.unrecognized c)

/-- The error for a fault at `cursor`, which covers the faulty character. -/
def LexFault.at (cursor : Cursor) : LexFault → LexError
  | unrecognized c => .unrecognizedCharacter c (cursor.spanOf 1)
  | incompleteAtom => .incompleteAtom (cursor.spanOf 1)

theorem classifyName_ne_endOfInput (arrows : Bool) (mode : LexMode) (run : List Char) :
    classifyName arrows mode run ≠ .endOfInput := by
  unfold classifyName
  split
  · split <;> simp
  · simp

/-- Only the end of the input is an empty lexeme. -/
theorem lexeme_pos {arrows : Bool} {mode : LexMode} {text : List Char} {kind : TokenKind} {n : Nat}
    (h : lexeme arrows mode text = .ok (kind, n)) (hk : kind ≠ .endOfInput) :
    0 < n ∧ text ≠ [] := by
  cases text with
  | nil =>
    simp only [lexeme, Except.ok.injEq, Prod.mk.injEq] at h
    exact absurd h.1.symm hk
  | cons c rest =>
    refine ⟨?_, by simp⟩
    rw [lexeme] at h
    repeat' split at h
    all_goals simp only [Except.ok.injEq, Prod.mk.injEq, reduceCtorEq] at h
    all_goals first | omega | (obtain ⟨-, rfl⟩ := h; simp)

/-! ## The lexer -/

/-- A cursor, and whether the arrow is a keyword. -/
structure Lexer where
  arrows : Bool
  cursor : Cursor
deriving DecidableEq

namespace Lexer

/-- A lexer at the beginning of `source`. -/
def ofSource (arrows : Bool) (source : List Char) : Lexer := ⟨arrows, .start source⟩

/-- Reads the next token.  After an error the cursor stands at the fault, past the trivia before
it. -/
def next (lx : Lexer) (mode : LexMode) : Except LexError Token × Lexer :=
  let (leading, here) := lx.cursor.skipTrivia
  match lexeme lx.arrows mode here.rest with
  | .error fault => (.error (fault.at here), { lx with cursor := here })
  | .ok (kind, n) =>
    (.ok ⟨kind, here.rest.take n, here.spanOf n, leading⟩, { lx with cursor := here.skip n })

/-- A token before the end of the input leaves less to read. -/
theorem rest_lt_of_next {lx : Lexer} {mode : LexMode} {t : Token}
    (h : (lx.next mode).1 = .ok t) (ht : t.kind ≠ .endOfInput) :
    (lx.next mode).2.cursor.rest.length < lx.cursor.rest.length := by
  have trivia := Cursor.rest_skipTrivia_le lx.cursor
  simp only [next] at h ⊢
  split at h
  · simp at h
  · next kind n found =>
    simp only [Except.ok.injEq] at h
    subst h
    obtain ⟨hn, hr⟩ := lexeme_pos found ht
    have := Cursor.rest_skip_lt hn hr
    exact Nat.lt_of_lt_of_le this trivia

/-! ## Whole sources -/

/-- How far a reader of tokens has come: the parentheses open, whether the token before was the
keyword `lambda`, and the mode of the next token. -/
structure Schedule where
  depth : Nat
  afterLambda : Bool
  mode : LexMode
deriving DecidableEq

/-- Before the first token. -/
def Schedule.initial : Schedule := ⟨0, false, .plain⟩

/-- After the token `t`: a parenthesis is followed by a head, unless it opens the arguments of a
lambda. -/
def Schedule.after (s : Schedule) (t : Token) : Schedule where
  depth :=
    match t.kind with
    | .leftParen => s.depth + 1
    | .rightParen => s.depth - 1
    | _ => s.depth
  afterLambda := t.kind == .keyword .lambda
  mode :=
    match t.kind with
    | .leftParen =>
      if s.afterLambda then .plain else if s.depth = 0 then .topLevelHead else .head
    | _ => .plain

/-- Reads all tokens from here on, the last of which is the end of the input. -/
def tokensFrom (s : Schedule) (lx : Lexer) : Except LexError (List Token) :=
  match _h : (lx.next s.mode).1 with
  | .error e => .error e
  | .ok t =>
    if _ht : t.kind = .endOfInput then .ok [t]
    else (tokensFrom (s.after t) (lx.next s.mode).2).map (t :: ·)
termination_by lx.cursor.rest.length
decreasing_by exact rest_lt_of_next _h _ht

/-- Lexing stops at an error. -/
theorem tokensFrom_of_error {s : Schedule} {lx : Lexer} {e : LexError}
    (h : (lx.next s.mode).1 = .error e) : tokensFrom s lx = .error e := by
  rw [tokensFrom]
  split <;> simp_all

/-- Lexing stops at the end of the input. -/
theorem tokensFrom_of_end {s : Schedule} {lx : Lexer} {t : Token}
    (h : (lx.next s.mode).1 = .ok t) (ht : t.kind = .endOfInput) : tokensFrom s lx = .ok [t] := by
  rw [tokensFrom]
  split <;> simp_all

/-- After any other token, lexing goes on in the mode that the token asks for. -/
theorem tokensFrom_of_ne_end {s : Schedule} {lx : Lexer} {t : Token}
    (h : (lx.next s.mode).1 = .ok t) (ht : t.kind ≠ .endOfInput) :
    tokensFrom s lx = (tokensFrom (s.after t) (lx.next s.mode).2).map (t :: ·) := by
  rw [tokensFrom]
  split <;> simp_all

end Lexer

/-- The tokens of `source`, the last of which is the end of the input. -/
def tokenize (arrows : Bool) (source : List Char) : Except LexError (List Token) :=
  Lexer.tokensFrom .initial (.ofSource arrows source)

/-- The comments before a token as tokens of their own, and then the token without its trivia. -/
def Token.withComments (t : Token) : List Token :=
  (t.leading.filter (·.kind = .comment)).map (fun c => ⟨.comment, c.text, c.span, []⟩) ++
    if t.isEnd then [] else [{ t with leading := [] }]

/-- The tokens and comments of `source` in order, without trivia and without the end of the
input. -/
def tokenizeWithComments (arrows : Bool) (source : List Char) : Except LexError (List Token) :=
  (tokenize arrows source).map (·.flatMap Token.withComments)

end PieSyntax
