/-
# The first error

A parser stops at the token that it refuses, or at the character at which no token begins, and lexes
nothing behind it.  Main statements: an error is reported alike whatever stands behind its place, if
it is not for want of input and not about nesting (`parse_exchange_of_error`).  A parenthesis too
many is refused only when the word behind it is asked for: it is reported alike if that is a token,
and otherwise the error is the one of lexing it; but the parenthesis before the arguments of a lambda
is refused at once (`parse_exchange_of_depthExceeded`).
-/
import PieSyntax.Proofs.Continuation
import PieSyntax.Proofs.Exchange
import PieSyntax.Proofs.Reading

namespace PieSyntax

open Text Lexer

/-! ## Where the parser stops -/

namespace Parser

/-- A refusal points at what ends with the token, unless a parenthesis too many stands before it. -/
theorem stop_eq_of_refusal {p : Parser} {t : Token} {e : ParseError} (h : Refusal p t e)
    (hopen : ∀ s ∈ p.openSpans, s.stop ≤ t.span.stop) (hp : ¬ p.IsSpent) :
    e.span.stop = t.span.stop := by
  induction h with
  | topLevel | unexpected | name | parameters | close => rw [span_reject]
  | missing | deepArguments | extra => rfl
  | leaf ht he =>
    rw [span_of_misfit he]
    rfl
  | closing ht he | closed ht he =>
    rw [span_of_misfit he]
    exact Nat.max_eq_right (hopen _ List.mem_cons_self)
  | deepForm hd => exact absurd ⟨⟨_, rfl⟩, hd⟩ hp
  | application ht hd he ih => exact ih hopen fun hspent => hspent.1.elim fun _ => Focus.noConfusion

/-- The word that is read is the end of the input only if the error is for want of input or about
nesting. -/
theorem kind_ne_end_of_refusal {p : Parser} {t : Token} {e : ParseError} (h : p.read t = .error e)
    (hi : (SyntaxError.grammatical e).isIncomplete = false) (hp : ¬ p.IsSpent)
    (hk : p.isIdle = true → t.kind ≠ .endOfInput) : t.kind ≠ .endOfInput := by
  intro hend
  have hidle : p.isIdle = false := Bool.eq_false_iff.2 fun h => hk h hend
  rw [(isIncomplete_iff_of_end (refusal_of_read h) hend hidle).2 hp] at hi
  cases hi

end Parser

/-! ## Texts that begin alike -/

section Exchange

variable {settings : Settings} {source : List Char} {ts : List Token} {q : Parser} {here : Lexer}
  {u old new : List Char}

/-- A parser comes to the same place in every text that begins with the same tokens. -/
theorem parse_exchange (hts : Scan .initial (.ofSource settings.arrows source) ts here)
    (hq : (Parser.initial settings.maxDepth).readAll ts = .ok q)
    (hnew : ∀ t ∈ ts.getLast?, MayFollow t.text here.cursor.rest new) :
    parse settings (ts.flatMap Token.source ++ new) = q.run (here.before new) :=
  Parser.run_of_scan (hts.exchange hnew) hq

/-- A parser comes to the same place when the text goes on in a way that may follow. -/
theorem parse_append (hts : Scan .initial (.ofSource settings.arrows source) ts here)
    (hq : (Parser.initial settings.maxDepth).readAll ts = .ok q)
    (hnew : ∀ t ∈ ts.getLast?, MayFollow t.text here.cursor.rest (here.cursor.rest ++ new)) :
    parse settings (source ++ new) = q.run (here.append new) := by
  have hsource : source = ts.flatMap Token.source ++ here.cursor.rest := hts.rest_eq
  conv_lhs => rw [hsource, List.append_assoc]
  exact parse_exchange hts hq hnew

theorem parse_exchange_append (hts : Scan .initial (.ofSource settings.arrows source) ts here)
    (hq : (Parser.initial settings.maxDepth).readAll ts = .ok q)
    (hrest : here.cursor.rest = u ++ old) (hu : u ≠ []) (new : List Char) :
    parse settings (ts.flatMap Token.source ++ u ++ new) = q.run (here.before (u ++ new)) := by
  rw [List.append_assoc]
  refine parse_exchange hts hq fun t _ => ?_
  rw [hrest]
  exact .of_append hu

/-- The source can be cut at every place behind a scan. -/
theorem splitBytes?_of_scan (hts : Scan .initial (.ofSource settings.arrows source) ts here)
    (hrest : here.cursor.rest = u ++ old) {stop : Nat}
    (hstop : here.cursor.offset + byteLength u = stop) :
    splitBytes? stop source = some (ts.flatMap Token.source ++ u, old) := by
  have hsource : source = ts.flatMap Token.source ++ u ++ old := by
    rw [List.append_assoc, ← hrest]
    exact hts.rest_eq
  have hbytes : stop = byteLength (ts.flatMap Token.source ++ u) := by
    rw [← hstop, hts.offset_ofSource, byteLength_append]
  rw [hbytes]
  conv_lhs => rw [hsource]
  exact splitBytes?_append _ _

end Exchange

/-! ## Errors -/

variable {settings : Settings} {source : List Char}

/-- **The first error.**  An error that is not for want of input and not about nesting is reported
alike when the text is cut off at its end, and whatever follows there behind a blank. -/
theorem parse_exchange_of_error {e : SyntaxError} (h : parse settings source = .error e)
    (hi : e.isIncomplete = false)
    (hd : ∀ limit span, e ≠ .grammatical (.depthExceeded limit span)) :
    ∃ text rest, splitBytes? e.span.stop source = some (text, rest) ∧
      ∀ more : List Char, (∀ c ∈ more.head?, isBlank c = true) →
        parse settings (text ++ more) = .error e := by
  obtain ⟨ts, q, here, hts, hq, hend⟩ := parse_ending settings source
  rw [h] at hend
  have hname : ∀ more : List Char, (∀ c ∈ more.head?, isBlank c = true) →
      ∀ c ∈ more.head?, isNameBody c = false :=
    fun more hmore c hc => isNameBody_blank (hmore c hc)
  cases hend with
  | @lexical failure last he =>
    obtain ⟨u, rest, hu, hrest, hstop, hnext⟩ := exists_exchange_of_error he
    refine ⟨_, rest, splitBytes?_of_scan hts hrest hstop, ?_⟩
    intro more hmore
    obtain ⟨last', hlast⟩ := hnext more (hname more hmore)
    rw [parse_exchange_append hts hq hrest hu more]
    exact Parser.run_of_ending (.lexical hlast)
  | @refused t last failure ht hr hk =>
    have hspent : ¬ q.IsSpent := by
      intro hspent
      obtain ⟨opening, hf⟩ := hspent.1
      rw [hspent.read_eq hf t] at hr
      cases hr
      exact hd _ _ rfl
    have htend := Parser.kind_ne_end_of_refusal hr hi hspent hk
    have took := took_of_next ht
    have hsource : t.source ≠ [] := by simp [Token.source, took.text_ne_nil htend]
    have hoffset : here.cursor.offset + byteLength t.source = t.span.stop := by
      rw [← took.offset_eq, (took.tiles htend).stop_eq, Token.flatMap_pieces]
    have hstop : failure.span.stop = t.span.stop := by
      refine Parser.stop_eq_of_refusal (Parser.refusal_of_read hr) ?_ hspent
      intro s hs
      have hle := Parser.openSpans_le (p := Parser.initial settings.maxDepth) hts hq
        (fun s hs => by cases hs) s hs
      omega
    refine ⟨_, last.cursor.rest, splitBytes?_of_scan hts took.rest_eq (hoffset.trans hstop.symm), ?_⟩
    intro more hmore
    have hnext := next_exchange ht htend (.of_head (hname more hmore))
    rw [parse_exchange_append hts hq took.rest_eq hsource more]
    exact Parser.run_of_ending (.refused hnext hr hk)

/-- An argument that is no name is reported, though a character behind it is no token. -/
theorem parse_exchange_of_error_argument :
    ∃ e : SyntaxError, parse {} "(lambda (x 'y)[".toList = .error e ∧ e.isIncomplete = false ∧
      (∀ limit span, e ≠ .grammatical (.depthExceeded limit span)) ∧
      ∃ text rest, splitBytes? e.span.stop "(lambda (x 'y)[".toList = some (text, rest) ∧
        ∀ more : List Char, (∀ c ∈ more.head?, isBlank c = true) →
          parse {} (text ++ more) = .error e := by
  have herror : error? (parse {} "(lambda (x 'y)[".toList) =
      some (.grammatical (.nonIdentifierArgument (.leaf .atom) ⟨11, 13⟩)) := by decide +kernel
  have h := eq_error_of_error? herror
  exact ⟨_, h, rfl, by simp, parse_exchange_of_error h rfl (by simp)⟩

/-! ## Nesting -/

namespace Lexer

/-- All heads are lexed alike, but for the choice of keywords. -/
theorem lexeme_head (arrows : Bool) (text : List Char) {mode : LexMode} (hm : mode ≠ .plain) :
    (∃ r s, lexeme arrows .head text = .ok r ∧ lexeme arrows mode text = .ok s) ∨
      ∃ fault, lexeme arrows .head text = .error fault ∧ lexeme arrows mode text = .error fault := by
  cases text with
  | nil => exact .inl ⟨_, _, rfl, rfl⟩
  | cons c rest =>
    have hlambda : mode.allows arrows .lambda = true := by
      cases mode with
      | plain => exact absurd rfl hm
      | head | topLevelHead => rfl
    rw [lexeme, lexeme, hlambda, show LexMode.head.allows arrows .lambda = true from rfl]
    split
    · exact .inl ⟨_, _, rfl, rfl⟩
    split
    · exact .inl ⟨_, _, rfl, rfl⟩
    split
    · split
      · exact .inr ⟨_, rfl, rfl⟩
      · exact .inl ⟨_, _, rfl, rfl⟩
    split
    · exact .inl ⟨_, _, rfl, rfl⟩
    simp only
    split
    · exact .inl ⟨_, _, rfl, rfl⟩
    split
    · exact .inl ⟨_, _, rfl, rfl⟩
    · exact .inr ⟨_, rfl, rfl⟩

/-- What is reported behind a parenthesis too many does not depend on the choice of keywords. -/
theorem deep_next_head (lx : Lexer) {mode : LexMode} (hm : mode ≠ .plain) (limit : Nat)
    (opening : Span) : SyntaxError.deep limit opening (lx.next mode).1 =
      .deep limit opening (lx.next .head).1 := by
  simp only [next]
  rcases lexeme_head lx.arrows lx.cursor.skipTrivia.2.rest hm with
    ⟨r, s, hr, hs⟩ | ⟨fault, hr, hs⟩
  · rw [hr, hs]
    rfl
  · rw [hr, hs]

end Lexer

namespace Parser

theorem reject_ne_depthExceeded (p : Parser) (t : Token) (expected : List Expected)
    (context : Production) (limit : Nat) (span : Span) :
    p.reject t expected context ≠ .depthExceeded limit span := by
  unfold reject
  split
  · split <;> exact ParseError.noConfusion
  · exact ParseError.noConfusion

/-- The two ways to open a parenthesis too many: before a head, and before the arguments of a
lambda. -/
theorem deep_of_refusal {p : Parser} {t : Token} {limit : Nat} {span : Span}
    (h : Refusal p t (.depthExceeded limit span)) :
    limit = p.maxDepth ∧ p.maxDepth ≤ p.depth ∧ (p.focus = .head span ∨
      (∃ f, p.focus = .parameters f) ∧ t.kind = .leftParen ∧ t.span = span) := by
  generalize he : ParseError.depthExceeded limit span = e at h
  cases h with
  | topLevel | unexpected | name | parameters | close =>
    exact absurd he.symm (reject_ne_depthExceeded _ _ _ _ _ _)
  | missing | extra => cases he
  | leaf _ hm | closing _ hm | closed _ hm => cases hm; cases he
  | deepForm hd =>
    cases he
    exact ⟨rfl, hd, .inl rfl⟩
  | deepArguments ht hd =>
    cases he
    exact ⟨rfl, hd, .inr ⟨⟨_, rfl⟩, ht, rfl⟩⟩
  | application ht hd hr =>
    -- Inside of the application that begins no parenthesis is refused.
    cases hr with
    | unexpected => exact absurd he.symm (reject_ne_depthExceeded _ _ _ _ _ _)
    | leaf _ hm => cases hm

theorem mode_ne_plain_of_head {p : Parser} {opening : Span} (hf : p.focus = .head opening) :
    p.mode ≠ .plain := by
  rw [mode, hf]
  show (if p.enclosing.isEmpty then LexMode.topLevelHead else .head) ≠ .plain
  split <;> exact LexMode.noConfusion

end Parser

/-- Before a head the text ends with its parenthesis. -/
theorem exists_before_of_head {ts : List Token} {q : Parser} {here : Lexer} {opening : Span}
    (hts : Scan .initial (.ofSource settings.arrows source) ts here)
    (hq : (Parser.initial settings.maxDepth).readAll ts = .ok q) (hf : q.focus = .head opening) :
    ∃ front o text t, ts = front ++ [o] ∧ o.kind = .leftParen ∧ o.text = ['('] ∧
      here.cursor.offset = opening.stop ∧ ts.flatMap Token.source = text ++ ['('] ∧
      source = text ++ '(' :: here.cursor.rest ∧
      opening = ⟨byteLength text, byteLength text + 1⟩ ∧
      tokenize settings.arrows text = .ok (front ++ [t]) ∧ t.kind = .endOfInput := by
  obtain ⟨front, o, rfl, ho, rfl⟩ := Parser.exists_opening_of_head hts hq hf
  obtain ⟨there, next, hfront, -, took, hnil⟩ := hts.cut
  cases hnil
  obtain ⟨text, t, htext, hsource, hspan, htokens, ht⟩ := hfront.exists_before took ho
  rw [← List.flatMap_singleton Token.source o, ← List.flatMap_append] at htext
  exact ⟨front, o, text, t, rfl, ho, took.text_of_leftParen ho, took.offset_eq, htext, hsource,
    hspan, htokens, ht⟩

/-- **Nesting.**  A parenthesis too many that does not hold the arguments of a lambda is reported
once the word behind it has been lexed, and instead of it that this is no token; one that holds them
is reported whatever stands behind it. -/
theorem parse_exchange_of_depthExceeded {limit : Nat} {span : Span}
    (h : parse settings source = .error (.grammatical (.depthExceeded limit span))) :
    ∃ text rest ts t, source = text ++ '(' :: rest ∧
      span = ⟨byteLength text, byteLength text + 1⟩ ∧
      tokenize settings.arrows text = .ok (ts ++ [t]) ∧ t.kind = .endOfInput ∧
      ((∃ first word, ts = first ++ [word] ∧ word.kind = .keyword .lambda) →
        ∀ more, parse settings (text ++ '(' :: more) =
          .error (.grammatical (.depthExceeded limit span))) ∧
      ((¬ ∃ first word, ts = first ++ [word] ∧ word.kind = .keyword .lambda) →
        ∀ more, parse settings (text ++ '(' :: more) =
          .error (.deep limit span (Lexer.next ⟨settings.arrows, span.stop, more⟩ .head).1)) := by
  obtain ⟨ts, q, here, hts, hq, hend⟩ := parse_ending settings source
  rw [h] at hend
  have hmark : IsMark ['('] := ⟨'(', by simp, rfl⟩
  have hparens : ∀ text more : List Char, text ++ '(' :: more = text ++ ['('] ++ more := by simp
  cases hend with
  | @refused t last failure ht hr hk =>
    obtain ⟨rfl, hdepth, hfocus | ⟨⟨f, hfocus⟩, hparen, rfl⟩⟩ :=
      Parser.deep_of_refusal (Parser.refusal_of_read hr)
    · -- The parenthesis has been read before, and `t` is the word behind it.
      obtain ⟨front, o, text, u, rfl, -, hotext, hoffset, htext, hsource, hspan, htokens, hu⟩ :=
        exists_before_of_head hts hq hfocus
      refine ⟨text, _, front, u, hsource, hspan, htokens, hu, ?_, ?_⟩
      · rintro ⟨first, word, hfirst, hword⟩
        have hmode := Parser.mode_ne_plain_of_head hfocus
        rw [← Parser.mode_of_readAll hq] at hmode
        obtain ⟨front', o', hcut, -, hplain⟩ := exists_opening_of_mode hmode
        obtain ⟨rfl, -⟩ := List.append_inj' hcut rfl
        exact absurd hword (hplain first word hfirst)
      · intro _ more
        have hrun : parse settings ((front ++ [o]).flatMap Token.source ++ more) =
            q.run (here.before more) := by
          refine parse_exchange hts hq fun v hv => ?_
          rw [List.getLast?_concat] at hv
          cases hv
          rw [hotext]
          exact .inl hmark
        rw [htext, ← hparens] at hrun
        rw [hrun, Parser.IsSpent.run_eq ⟨⟨_, hfocus⟩, hdepth⟩ hfocus,
          deep_next_head _ (Parser.mode_ne_plain_of_head hfocus), before, hts.arrows_eq, hoffset]
        rfl
    · have took := took_of_next ht
      have hend : t.kind ≠ .endOfInput := by rw [hparen]; exact TokenKind.noConfusion
      obtain ⟨text, u, htext, hsource, hspan, htokens, hu⟩ := hts.exists_before took hparen
      refine ⟨text, _, ts, u, hsource, hspan, htokens, hu, ?_, ?_⟩
      · intro _ more
        have hnext : (here.before (t.source ++ more)).next q.mode = (.ok t, last.before more) := by
          refine next_exchange ht hend (.inl ?_)
          rw [took.text_of_leftParen hparen]
          exact hmark
        have hne : t.source ≠ [] := by simp [Token.source, took.text_ne_nil hend]
        have hrun := parse_exchange_append hts hq took.rest_eq hne more
        rw [htext, ← hparens] at hrun
        rw [hrun]
        exact Parser.run_of_ending (.refused hnext hr hk)
      · intro hnone
        have hlambda : q.schedule.afterLambda = true := by rw [Parser.schedule, hfocus]
        rw [Parser.schedule_of_readAll hq, Parser.schedule_initial] at hlambda
        exact absurd (Schedule.afterLambda_iff.1 hlambda) hnone

/-- One parenthesis too many before a name. -/
theorem parse_exchange_of_depthExceeded_name :
    parse ⟨.application, 1⟩ "((f".toList = .error (.grammatical (.depthExceeded 1 ⟨1, 2⟩)) ∧
      ∃ text rest ts t, "((f".toList = text ++ '(' :: rest ∧
        (⟨1, 2⟩ : Span) = ⟨byteLength text, byteLength text + 1⟩ ∧
        tokenize false text = .ok (ts ++ [t]) ∧ t.kind = .endOfInput ∧
        ((∃ first word, ts = first ++ [word] ∧ word.kind = .keyword .lambda) →
          ∀ more, parse ⟨.application, 1⟩ (text ++ '(' :: more) =
            .error (.grammatical (.depthExceeded 1 ⟨1, 2⟩))) ∧
        ((¬ ∃ first word, ts = first ++ [word] ∧ word.kind = .keyword .lambda) →
          ∀ more, parse ⟨.application, 1⟩ (text ++ '(' :: more) =
            .error (.deep 1 ⟨1, 2⟩ (Lexer.next ⟨false, 2, more⟩ .head).1)) := by
  have herror : error? (parse ⟨.application, 1⟩ "((f".toList) =
      some (.grammatical (.depthExceeded 1 ⟨1, 2⟩)) := by decide +kernel
  have h := eq_error_of_error? herror
  exact ⟨h, parse_exchange_of_depthExceeded h⟩

/-- A parenthesis too many is not reported whatever stands behind it: a character that is no token
is reported in its place. -/
theorem not_parse_exchange_of_depthExceeded :
    ¬ ∀ (settings : Settings) (source text rest more : List Char) (limit : Nat) (span : Span),
      parse settings source = .error (.grammatical (.depthExceeded limit span)) →
      splitBytes? span.stop source = some (text, rest) →
      (∀ c ∈ more.head?, isBlank c = true) →
      parse settings (text ++ more) = .error (.grammatical (.depthExceeded limit span)) := by
  intro hall
  have hname : error? (parse ⟨.application, 1⟩ "((f".toList) =
      some (.grammatical (.depthExceeded 1 ⟨1, 2⟩)) := by decide +kernel
  have hbracket : error? (parse ⟨.application, 1⟩ "(( [".toList) =
      some (.lexical (.unrecognizedCharacter '[' ⟨3, 4⟩)) := by decide +kernel
  have hsame : parse ⟨.application, 1⟩ "(( [".toList = _ :=
    hall _ _ ['(', '('] ['f'] [' ', '['] _ _ (eq_error_of_error? hname) (by decide) (by simp; decide)
  rw [hsame] at hbracket
  cases hbracket

end PieSyntax
