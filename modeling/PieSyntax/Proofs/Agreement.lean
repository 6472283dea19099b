/-
# Parsing and lexing agree

A source can be lexed without being parsed, with modes that follow from counting parentheses alone.
Main statement: this finds the tokens of the tree whenever the source parses, and it stops at the same
text if there is text that is no token; a parser that stops earlier has found its error before that
text (`parse_agrees_with_tokenize`).
-/
import PieSyntax.Proofs.Pieces

namespace PieSyntax

open Text

/-! ## Where errors are -/

/-- The places of the opening parentheses that the focus holds. -/
def Focus.openSpans : Focus → List Span
  | expression => []
  | head opening => [opening]
  | name f | parameters f | close f => [f.opening]

namespace Parser

/-- The places of the opening parentheses whose forms are not closed yet. -/
def openSpans (p : Parser) : List Span := p.focus.openSpans ++ p.enclosing.map (·.1.opening)

theorem openSpans_of_delivery {p q : Parser} {n : Node} (h : Delivery p n q) :
    q.openSpans = p.openSpans := by
  cases h <;> rfl

/-- The forms that a step leaves open were open before or are opened by the token. -/
theorem openSpans_of_step {p q : Parser} {t : Token} (h : Step p t q) :
    ∀ s ∈ q.openSpans, s ∈ p.openSpans ∨ s = t.span := by
  induction h with
  | leaf ht hq =>
    rw [openSpans_of_delivery hq]
    exact fun s hs => Or.inl hs
  | opening ht =>
    intro s hs
    rcases List.mem_cons.1 hs with rfl | hs
    · exact Or.inr rfl
    · exact Or.inl hs
  | closing ht hq =>
    rw [openSpans_of_delivery hq]
    exact fun s hs => Or.inl (List.mem_cons_of_mem _ hs)
  | application ht hd hq ih => exact ih
  | close ht hq =>
    rw [openSpans_of_delivery hq]
    exact fun s hs => Or.inl (List.mem_cons_of_mem _ hs)
  | _ => exact fun s hs => Or.inl hs

/-- An unexpected token is blamed where it stands. -/
theorem span_reject (p : Parser) (t : Token) (expected : List Expected) (context : Production) :
    (p.reject t expected context).span = t.span := by
  unfold reject
  split
  · split <;> rfl
  · rfl

/-- A node that is turned away is blamed where it stands. -/
theorem span_of_misfit {p : Parser} {n : Node} {e : ParseError} (h : Misfit p n e) :
    e.span = n.span := by
  cases h
  rfl

/-- A refusal points at nothing behind the token, if all open parentheses stand before it. -/
theorem stop_le_of_refusal {p : Parser} {t : Token} {e : ParseError} (h : Refusal p t e)
    (hp : ∀ s ∈ p.openSpans, s.stop ≤ t.span.stop) : e.span.stop ≤ t.span.stop := by
  induction h with
  | topLevel | unexpected | name | parameters | close =>
    rw [span_reject]
  | missing | deepArguments | extra => exact Nat.le_refl _
  | leaf ht he =>
    rw [span_of_misfit he]
    exact Nat.le_refl _
  | closing ht he | closed ht he =>
    rw [span_of_misfit he]
    exact Nat.max_le.2 ⟨hp _ List.mem_cons_self, Nat.le_refl _⟩
  | deepForm hd => exact hp _ List.mem_cons_self
  | application ht hd he ih => exact ih hp

/-- Only the end of the input is laid to an open parenthesis. -/
theorem kind_of_incomplete {p : Parser} {t : Token} {e : ParseError} (h : Refusal p t e)
    (he : (SyntaxError.grammatical e).isIncomplete = true) : t.kind = .endOfInput := by
  have rejected : ∀ (q : Parser) (expected : List Expected) (context : Production),
      (SyntaxError.grammatical (q.reject t expected context)).isIncomplete = true →
        t.kind = .endOfInput := by
    intro q expected context hq
    unfold reject at hq
    split at hq
    · next hend => simpa [Token.isEnd] using hend
    · cases hq
  induction h with
  | topLevel | unexpected | name | parameters | close => exact rejected _ _ _ he
  | missing | deepForm | deepArguments | extra => cases he
  | leaf ht hm | closing ht hm | closed ht hm => cases hm; cases he
  | application ht hd hr ih => exact ih he rejected

/-- While a scan is read, all open parentheses stand before the cursor. -/
theorem openSpans_le {p q : Parser} {lx last : Lexer} {ts : List Token}
    (hts : Lexer.Scan p.schedule lx ts last) (hq : p.readAll ts = .ok q)
    (hp : ∀ s ∈ p.openSpans, s.stop ≤ lx.cursor.offset) :
    ∀ s ∈ q.openSpans, s.stop ≤ last.cursor.offset := by
  refine invariant_of_scan
    (I := fun p lx => ∀ s ∈ p.openSpans, s.stop ≤ lx.cursor.offset) ?_ hts hq hp
  intro p q lx mid t hp ht hk hstep s hs
  have took := Lexer.took_of_next ht
  have hle := (took.tiles hk).stop_eq
  rcases openSpans_of_step hstep s hs with h | rfl
  · have := hp s h
    omega
  · exact Nat.le_of_eq took.offset_eq.symm

end Parser

/-! ## Results of parses -/

theorem eq_ok_of_toOption {ε α : Type} {x : Except ε α} {a : α} (h : x.toOption = some a) :
    x = .ok a := by
  cases x with
  | error e => cases h
  | ok b => exact congrArg Except.ok (Option.some.inj h)

/-- The error of a computation that fails. -/
def error? {ε α : Type} : Except ε α → Option ε
  | .ok _ => none
  | .error e => some e

theorem eq_error_of_error? {ε α : Type} {x : Except ε α} {e : ε} (h : error? x = some e) :
    x = .error e := by
  cases x with
  | ok a => cases h
  | error e' => exact congrArg Except.error (Option.some.inj h)

theorem exists_tree_of_isSome {settings : Settings} {source : List Char}
    (h : (parse settings source).toOption.isSome = true) :
    ∃ tree, parse settings source = .ok tree := by
  obtain ⟨tree, htree⟩ := Option.isSome_iff_exists.1 h
  exact ⟨tree, eq_ok_of_toOption htree⟩

/-- The tokens of a tree are the scan that its parse has read, with the end of the input behind it. -/
theorem exists_scan_of_parse {settings : Settings} {source : List Char} {tree : SyntaxTree}
    (h : parse settings source = .ok tree) :
    ∃ q here last t, Lexer.Scan .initial (.ofSource settings.arrows source) tree.tokens here ∧
      (Parser.initial settings.maxDepth).readAll tree.tokens = .ok q ∧ q.isIdle = true ∧
      here.next q.mode = (.ok t, last) ∧ t.kind = .endOfInput ∧ tree = q.tree t := by
  obtain ⟨ts, q, here, hts, hq, hend⟩ := parse_ending settings source
  rw [h] at hend
  cases hend with
  | @finished t last ht hp hk =>
    have htokens : (q.tree t).tokens = ts := Parser.tokens_of_readAll hq
    rw [htokens]
    exact ⟨q, here, last, t, hts, hq, hp, ht, hk, rfl⟩

/-- Lexing all of a source that parses gives the tokens of its tree and the end of the input. -/
theorem tokenize_of_parse {settings : Settings} {source : List Char} {tree : SyntaxTree}
    (h : parse settings source = .ok tree) :
    tokenize settings.arrows source = .ok (tree.tokens ++ [.atEnd source tree.trailing]) := by
  obtain ⟨q, here, last, t, hts, hq, -, ht, hk, htree⟩ := exists_scan_of_parse h
  have hlast := Lexer.eq_atEnd hts (Lexer.took_of_next ht) hk
  have htrailing : tree.trailing = t.leading := by rw [htree]; rfl
  rw [← Parser.mode_of_readAll hq] at ht
  rw [htrailing, ← hlast]
  exact hts.tokenize_eq ht hk

/-! ## Where lexing fails -/

namespace Lexer

/-- A text that is no token begins at the cursor after the trivia before it. -/
theorem start_of_error {lx last : Lexer} {mode : LexMode} {e : LexError}
    (h : lx.next mode = (.error e, last)) : lx.cursor.offset ≤ e.span.start := by
  have tiles := lx.cursor.skipTrivia_run.2.1.stop_eq
  unfold next at h
  simp only at h
  split at h
  · next fault _ =>
    simp only [Prod.mk.injEq, Except.error.injEq] at h
    rw [← h.1]
    cases fault <;> simp only [LexFault.at, LexError.span, Cursor.spanOf] <;> omega
  · simp at h

theorem eq_error_of_map {α β : Type} {f : α → β} {x : Except LexError α} {e : LexError}
    (h : x.map f = .error e) : x = .error e := by
  cases x with
  | error e' => cases h; rfl
  | ok a => cases h

/-- A lexical error lies ahead of the lexer. -/
theorem start_of_tokensFrom_error {s : Schedule} {lx : Lexer} {e : LexError}
    (h : tokensFrom s lx = .error e) : lx.cursor.offset ≤ e.span.start := by
  fun_induction tokensFrom s lx with
  | case1 s lx e' he =>
    cases h
    exact start_of_error (Prod.ext he rfl)
  | case2 => cases h
  | case3 s lx t ht hk ih =>
    have took : Took lx s.mode t (lx.next s.mode).2 := took_of_next (Prod.ext ht rfl)
    have hle := (took.tiles hk).stop_eq
    have := ih (eq_error_of_map h)
    omega

/-- An error of lexing that comes after some tokens lies behind them. -/
theorem Scan.offset_le_start {s : Schedule} {lx last : Lexer} {ts : List Token} {e : LexError}
    (h : Scan s lx ts last) (he : tokensFrom s lx = .error e) :
    last.cursor.offset ≤ e.span.start := by
  rw [h.tokensFrom_eq] at he
  exact start_of_tokensFrom_error (eq_error_of_map he)

end Lexer

/-! ## Agreement -/

/-- How the result of parsing `source` goes with that of lexing it. -/
def Agree (source : List Char) :
    Except SyntaxError SyntaxTree → Except LexError (List Token) → Prop
  | .ok tree, tokens => tokens = .ok (tree.tokens ++ [.atEnd source tree.trailing])
  | .error (.lexical e), tokens => tokens = .error e
  | .error (.grammatical (.missingCloseParen ..)), tokens => ∃ ts, tokens = .ok ts
  | .error (.grammatical e), tokens => ∀ e', tokens = .error e' → e.span.stop ≤ e'.span.start

/-- A grammatical error agrees with the tokens if it ends before a lexical error starts. -/
theorem agree_of_stop_le {source : List Char} {e : ParseError}
    {tokens : Except LexError (List Token)}
    (hm : (SyntaxError.grammatical e).isIncomplete = true → ∃ ts, tokens = .ok ts)
    (he : ∀ e', tokens = .error e' → e.span.stop ≤ e'.span.start) :
    Agree source (.error (.grammatical e)) tokens := by
  cases e with
  | missingCloseParen => exact hm rfl
  | _ => exact he

/-- **Agreement.**  Lexing a whole source gives the tokens of its tree and the end of the input if it
parses, and fails as parsing does if a text is no token.  If the input ends within a form, all of it
has been lexed; any other error of the grammar lies before a text that is no token. -/
theorem parse_agrees_with_tokenize (settings : Settings) (source : List Char) :
    Agree source (parse settings source) (tokenize settings.arrows source) := by
  cases hparse : parse settings source with
  | ok tree => exact tokenize_of_parse hparse
  | error failure =>
    obtain ⟨ts, q, here, hts, hq, hend⟩ := parse_ending settings source
    rw [hparse] at hend
    -- Where the parser stops, the rest is lexed in the mode that it would have asked for.
    have htokens : tokenize settings.arrows source = _ := hts.tokensFrom_eq
    have hschedule := Parser.schedule_of_readAll hq
    rw [Parser.schedule_initial] at hschedule
    rw [htokens, ← hschedule]
    cases hend with
    | lexical he =>
      rw [Lexer.tokensFrom_of_error (by rw [Parser.schedule, he])]
      rfl
    | @refused t last e ht he hk =>
      have took := Lexer.took_of_next ht
      have refusal := Parser.refusal_of_read he
      apply agree_of_stop_le
      · intro hm
        rw [Lexer.tokensFrom_of_end (by rw [Parser.schedule, ht])
          (Parser.kind_of_incomplete refusal hm)]
        exact ⟨_, rfl⟩
      · intro e' he'
        -- At the end of the input nothing is left to lex; otherwise the token comes first.
        by_cases hend : t.kind = .endOfInput
        · rw [Lexer.tokensFrom_of_end (by rw [Parser.schedule, ht]) hend] at he'
          cases he'
        · have hscan : Lexer.Scan q.schedule here [t] last := .cons ht hend .nil
          have hstart := hscan.offset_le_start (Lexer.eq_error_of_map he')
          have hspans := Parser.openSpans_le (p := Parser.initial settings.maxDepth) hts hq
            (by intro s hs; cases hs)
          have hstop := Parser.stop_le_of_refusal refusal fun s hs => by
            have hopen := hspans s hs
            have hoffset := hscan.offset_eq
            have htoken := took.offset_eq
            omega
          rw [← took.offset_eq] at hstop
          exact Nat.le_trans hstop hstart

end PieSyntax
